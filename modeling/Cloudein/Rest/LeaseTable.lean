import Cloudein.Lib.Lease
import Cloudein.Rest.TxStore

/-!
# The list of transmitters is a lease table

Requests one after another and passes of the checker, in any order, under a clock that does not go back.  The list
then refines a lease table (`table_refines`): a request whose copy returns configures the lease of its `tx-ip`, a
request whose copy throws does nothing, and a pass lets at most one lease expire.  So every entry is in the state
`TX_ST_INIT`, with the time of the last configuration of its `tx-ip` and the configuration of the request that created
it, and an entry leaves the list only more than 10 seconds after that time.
-/

namespace Cloudein.Rest

open CString KeyedList Runs

structure TxTable where
  store : TxStore
  /-- No later reading of the clock is below this one. -/
  clock : Int

inductive TableEvent where
  | configure (body : JsonValue) (now : Int)
  | pass (now : Nat → Int)

namespace TxTable

def init (clock : Int) : TxTable := ⟨.init, clock⟩

abbrev list (s : TxTable) : List TxInfo := s.store.txInfoList

def configure (body : JsonValue) (now : Int) (s : TxTable) : TxTable :=
  match s.store.recvdataCopy body with
  | (store, some _) => ⟨store, now⟩
  | (store, none) => ⟨store.saveSection now, now⟩

def pass (now : Nat → Int) (s : TxTable) : Except Fault TxTable :=
  (s.store.stateCheckerLoop now).map fun store => ⟨store, now s.list.length⟩

end TxTable

/-- The posted `tx-ip`, as a C string, has at most 63 characters. -/
def ShortTxIp (body : JsonValue) : Prop :=
  ∀ g, posted body = .ok g → (cstr (g .txIp)).length < maxTokenStringLength

instance (body : JsonValue) : Decidable (ShortTxIp body) :=
  match h : posted body with
  | .error _ => .isTrue fun _ hg => by rw [h] at hg; cases hg
  | .ok g => decidable_of_iff ((cstr (g .txIp)).length < maxTokenStringLength) (by simp [ShortTxIp, h])

/-- The clock does not go back, and the `tx-ip` fits its array. -/
def tableSystem : System TxTable TableEvent Fault where
  enabled s
    | .configure body now => s.clock ≤ now ∧ ShortTxIp body
    | .pass now => s.clock ≤ now 0 ∧ ∀ i j, i ≤ j → now i ≤ now j
  step s
    | .configure body now => .ok (s.configure body now)
    | .pass now => s.pass now

/-! ### The steps -/

namespace TxTable

/-- Between two steps the entries are those of distinct transmitters, with times in the past. -/
structure Sound (s : TxTable) : Prop where
  distinct : Distinct TxInfo.txIp s.list
  state : ∀ t ∈ s.list, t.state = .init
  time : ∀ t ∈ s.list, t.initTime ≤ s.clock
  fdLog : s.store.fdLogOpen = false

private theorem sound_init (clock : Int) : (init clock).Sound :=
  ⟨distinct_nil, by simp [init, TxStore.init, list], by simp [init, TxStore.init, list], rfl⟩

private theorem configure_ok {body : JsonValue} {g : TxField → List Char} (h : posted body = .ok g)
    (hshort : ShortTxIp body) (now : Int) (s : TxTable) :
    ∃ r : TxInfo, r.Holds g ∧ r.txIp = cstr (g .txIp) ∧ (s.configure body now).list = saveAndInit r now s.list ∧
      (s.configure body now).clock = now ∧ (s.configure body now).store.fdLogOpen = s.store.fdLogOpen := by
  obtain ⟨r, hholds, hcopy⟩ := TxStore.recvdataCopy_ok h s.store
  refine ⟨r, hholds, hholds.txIp (hshort g h), ?_, ?_, ?_⟩ <;> simp only [configure, hcopy]
  · rfl
  · rfl

private theorem configure_error {body : JsonValue} {e : JsonException} (h : posted body = .error e) (now : Int)
    (s : TxTable) :
    (s.configure body now).list = s.list ∧ (s.configure body now).clock = now ∧
      (s.configure body now).store.fdLogOpen = s.store.fdLogOpen := by
  obtain ⟨r, hcopy⟩ := TxStore.recvdataCopy_error h s.store
  simp only [configure, hcopy, and_self, list]

theorem Sound.pass_ok {s : TxTable} (h : s.Sound) {now : Nat → Int} (hclock : s.clock ≤ now 0)
    (hmono : ∀ i j, i ≤ j → now i ≤ now j) :
    ∃ l, checkEntries false now s.list = .ok l ∧
      s.pass now = .ok ⟨{ s.store with txInfoList := l, txInfoListLock := false }, now s.list.length⟩ := by
  have hforward : ClockNotBehind now s.list := by
    intro i t ht _ _
    have htime : t.initTime ≤ s.clock := h.time t (List.mem_of_getElem? ht)
    have hreading : now 0 ≤ now i := hmono 0 i (Nat.zero_le i)
    omega
  obtain ⟨l, hl⟩ := checkEntries_ok_iff.2 hforward
  refine ⟨l, hl, ?_⟩
  simp only [pass, TxStore.stateCheckerLoop_eq, h.fdLog, hl, Except.map]

private theorem Sound.lookup_iff {s : TxTable} (h : s.Sound) {k : List Char} {t : TxInfo} :
    lookup TxInfo.txIp s.list k = some t ↔ t ∈ s.list ∧ t.txIp = k :=
  h.distinct.lookup_eq_some

theorem Sound.configure {s : TxTable} (h : s.Sound) {body : JsonValue} {now : Int} (hclock : s.clock ≤ now)
    (hshort : ShortTxIp body) : (s.configure body now).Sound := by
  cases hg : posted body with
  | error e =>
    obtain ⟨hlist, hnow, hlog⟩ := configure_error hg now s
    refine ⟨by rw [hlist]; exact h.distinct, ?_, ?_, hlog.trans h.fdLog⟩
    · rw [hlist]
      exact h.state
    · rw [hlist, hnow]
      intro t ht
      have htime := h.time t ht
      omega
  | ok g =>
    obtain ⟨r, -, -, hlist, hnow, hlog⟩ := configure_ok hg hshort now s
    have hdistinct : Distinct TxInfo.txIp (s.configure body now).list := by
      rw [hlist]
      exact distinct_saveAndInit h.distinct r now
    -- An entry is the renewed one, or was there before.
    have hentry : ∀ t ∈ (s.configure body now).list, (t.state = .init ∧ t.initTime = now) ∨ t ∈ s.list := by
      intro t ht
      have hlookup : lookup TxInfo.txIp (s.configure body now).list t.txIp = some t :=
        hdistinct.lookup_eq_some.2 ⟨ht, rfl⟩
      rw [hlist, lookup_saveAndInit] at hlookup
      by_cases hk : t.txIp = r.txIp
      · rw [hk, Function.update_self, Option.some.injEq] at hlookup
        exact Or.inl (hlookup ▸ ⟨rfl, rfl⟩)
      · rw [Function.update_of_ne hk] at hlookup
        exact Or.inr (of_lookup hlookup).1
    refine ⟨hdistinct, fun t ht => ?_, fun t ht => ?_, hlog.trans h.fdLog⟩
    · rcases hentry t ht with ⟨hstate, -⟩ | ht
      · exact hstate
      · exact h.state t ht
    · rw [hnow]
      rcases hentry t ht with ⟨-, htime⟩ | ht
      · omega
      · have htime := h.time t ht
        omega

theorem Sound.step {s : TxTable} (h : s.Sound) {e : TableEvent} (he : tableSystem.enabled s e) :
    ∃ s', tableSystem.step s e = .ok s' ∧ s'.Sound := by
  cases e with
  | configure body now => exact ⟨_, rfl, h.configure he.1 he.2⟩
  | pass now =>
    obtain ⟨l, hl, hpass⟩ := h.pass_ok he.1 he.2
    have hsub : l.Sublist s.list := checkEntries_sublist hl
    refine ⟨_, hpass, h.distinct.sublist hsub, fun t ht => h.state t (hsub.mem ht), fun t ht => ?_, h.fdLog⟩
    have htime : t.initTime ≤ s.clock := h.time t (hsub.mem ht)
    have hreading : now 0 ≤ now s.list.length := he.2 0 _ (Nat.zero_le _)
    have hclock : s.clock ≤ now 0 := he.1
    show t.initTime ≤ now s.list.length
    omega

/-- A pass removes no entry, or one whose 10 seconds are over when the pass gets to it. -/
theorem Sound.pass_cases {s s' : TxTable} (h : s.Sound) {now : Nat → Int} (he : tableSystem.enabled s (.pass now))
    (hs : tableSystem.step s (.pass now) = .ok s') :
    s'.list = s.list ∨ ∃ l₁ t l₂, s.list = l₁ ++ t :: l₂ ∧ s'.list = l₁ ++ l₂ ∧ 10 < now l₁.length - t.initTime := by
  obtain ⟨l, hl, hpass⟩ := h.pass_ok he.1 he.2
  obtain rfl : s'.list = l := by
    have hs : s.pass now = .ok s' := hs
    rw [hpass, Except.ok.injEq] at hs
    rw [← hs]
  rcases checkEntries_cases hl with hsame | ⟨l₁, t, l₂, hsplit, hrest, limit, hlimit, hlt⟩
  · exact Or.inl hsame
  · -- The entry that was erased is in the state `TX_ST_INIT`, so its timeout is 10.
    have ht : t ∈ s.list := by
      rw [hsplit]
      simp
    have hten : limit = 10 := by
      rw [h.state t ht] at hlimit
      simpa [TxState.timeoutSec] using hlimit.symm
    exact Or.inr ⟨l₁, t, l₂, hsplit, hrest, hten ▸ hlt⟩

theorem Sound.next {s s' : TxTable} (h : s.Sound) {e : TableEvent} (he : tableSystem.enabled s e)
    (hs : tableSystem.step s e = .ok s') : s'.Sound := by
  obtain ⟨s'', hs'', hsound⟩ := h.step he
  rw [hs, Except.ok.injEq] at hs''
  exact hs'' ▸ hsound

end TxTable

/-! ### The lease table the list represents -/

def leases (l : List TxInfo) : Lease.Table (List Char) (TxField → CharArray maxTokenStringLength) :=
  fun k => (lookup TxInfo.txIp l k).map fun t => ⟨t.text, t.initTime⟩

private theorem leases_saveAndInit (r : TxInfo) (now : Int) (l : List TxInfo) :
    leases (saveAndInit r now l) = (leases l).configure r.txIp r.text now := by
  funext k
  rw [leases, lookup_saveAndInit, Lease.Table.configure]
  by_cases hk : k = r.txIp
  · subst hk
    rw [Function.update_self, Function.update_self]
    cases hl : lookup TxInfo.txIp l r.txIp <;> simp [leases, hl, TxInfo.renewed]
  · rw [Function.update_of_ne hk, Function.update_of_ne hk, leases]

private theorem leases_remove {l₁ l₂ : List TxInfo} {t : TxInfo} (h : Distinct TxInfo.txIp (l₁ ++ t :: l₂)) :
    leases (l₁ ++ l₂) = Function.update (leases (l₁ ++ t :: l₂)) t.txIp none := by
  funext k
  rw [leases, h.lookup_remove]
  by_cases hk : k = t.txIp
  · subst hk
    rw [Function.update_self, Function.update_self]
    rfl
  · rw [Function.update_of_ne hk, Function.update_of_ne hk, leases]

private theorem TxTable.Sound.lease_of_mem {s : TxTable} (h : s.Sound) {t : TxInfo} (ht : t ∈ s.list) :
    leases s.list t.txIp = some ⟨t.text, t.initTime⟩ := by
  rw [leases, h.lookup_iff.2 ⟨ht, rfl⟩]
  rfl

/-- The configurations of a run, as the `tx-ip` posted and the time. -/
def configurations (es : List TableEvent) : List (List Char × Int) :=
  es.filterMap fun
    | .configure body now => match posted body with
      | .ok g => some (cstr (g .txIp), now)
      | .error _ => none
    | .pass _ => none

/-- Every run is a run of the lease table with the same configurations. -/
theorem table_refines {clock : Int} {es : List TableEvent} (h : tableSystem.Allowed (.init clock) es) {s : TxTable}
    (hs : tableSystem.exec (.init clock) es = .ok s) :
    s.Sound ∧ ∃ as, (Lease.system 10).Allowed .empty as ∧ (Lease.system 10).exec .empty as = .ok (leases s.list) ∧
      Lease.renewals as = configurations es := by
  refine System.exec_hist (I := fun es s => s.Sound ∧ ∃ as, (Lease.system 10).Allowed .empty as ∧
    (Lease.system 10).exec .empty as = .ok (leases s.list) ∧ Lease.renewals as = configurations es)
    ⟨TxTable.sound_init clock, [], trivial, rfl, rfl⟩ ?_ h hs
  rintro p u e v ⟨hu, as, hal, has, hrenewals⟩ he hv
  refine ⟨hu.next he hv, ?_⟩
  cases e with
  | configure body now =>
    obtain rfl : u.configure body now = v := by simpa [tableSystem] using hv
    cases hg : posted body with
    | error e =>
      -- A request whose copy throws leaves the leases as they are.
      have hlist := (TxTable.configure_error hg now u).1
      refine ⟨as, hal, by rw [has, hlist], ?_⟩
      rw [hrenewals]
      simp [configurations, hg]
    | ok g =>
      obtain ⟨r, -, hip, hlist, -, -⟩ := TxTable.configure_ok hg he.2 now u
      have hen : (Lease.system 10).enabled (leases u.list) (.configure r.txIp r.text now) := trivial
      refine ⟨as ++ [.configure r.txIp r.text now], hal.concat has hen, ?_, ?_⟩
      · rw [hlist, leases_saveAndInit]
        exact System.exec_concat has rfl
      · have hlast : configurations (p ++ [.configure body now]) = configurations p ++ [(cstr (g .txIp), now)] := by
          simp [configurations, hg]
        rw [hlast, ← hrenewals, ← hip]
        simp [Lease.renewals]
  | pass now =>
    have hlast : configurations (p ++ [.pass now]) = configurations p := by simp [configurations]
    rcases hu.pass_cases he hv with hsame | ⟨l₁, t, l₂, hsplit, hrest, hlt⟩
    · exact ⟨as, hal, by rw [has, hsame], by rw [hrenewals, hlast]⟩
    · have ht : t ∈ u.list := by
        rw [hsplit]
        simp
      have hremove : leases v.list = Function.update (leases u.list) t.txIp none := by
        rw [hrest, hsplit]
        exact leases_remove (hsplit ▸ hu.distinct)
      have hen : (Lease.system 10).enabled (leases u.list) (.expire t.txIp (now l₁.length)) :=
        ⟨_, hu.lease_of_mem ht, hlt⟩
      refine ⟨as ++ [.expire t.txIp (now l₁.length)], hal.concat has hen, ?_, ?_⟩
      · rw [hremove]
        exact System.exec_concat has rfl
      · rw [hlast, ← hrenewals]
        simp [Lease.renewals]

def lastConfigured (txIp : List Char) (es : List TableEvent) : Option Int :=
  Lease.lastRenewal txIp (configurations es)

private theorem lastConfigured_eq {clock : Int} {es : List TableEvent} (h : tableSystem.Allowed (.init clock) es)
    {s : TxTable} (hs : tableSystem.exec (.init clock) es = .ok s) {t : TxInfo} (ht : t ∈ s.list) :
    lastConfigured t.txIp es = some t.initTime := by
  obtain ⟨hsound, as, hal, has, hrenewals⟩ := table_refines h hs
  rw [lastConfigured, ← hrenewals]
  exact Lease.renewed_eq hal has (hsound.lease_of_mem ht)

/-! ### The request that created an entry -/

/-- The entry was created by a request of the run: it holds the configuration that request posted, its `tx-ip` was not
listed before the request and has been listed ever since. -/
def CreatedBy (clock : Int) (es : List TableEvent) (t : TxInfo) : Prop :=
  ∃ p body now q g, es = p ++ .configure body now :: q ∧ posted body = .ok g ∧ cstr (g .txIp) = t.txIp ∧ t.Holds g ∧
    (∀ u, tableSystem.exec (.init clock) p = .ok u → ∀ t' ∈ u.list, t'.txIp ≠ t.txIp) ∧
    ∀ q₁ q₂ u, q = q₁ ++ q₂ → tableSystem.exec (.init clock) (p ++ .configure body now :: q₁) = .ok u →
      ∃ t' ∈ u.list, t'.txIp = t.txIp

/-- The event posted a configuration of the `tx-ip`, and the entry of the `tx-ip` holds it. -/
def Created (k : List Char) (e : TableEvent) (s : TxTable) : Prop :=
  ∃ body now g t, e = .configure body now ∧ posted body = .ok g ∧ cstr (g .txIp) = k ∧
    lookup TxInfo.txIp s.list k = some t ∧ t.Holds g

private theorem TxTable.Sound.lookup_of_pass {s s' : TxTable} (h : s.Sound) {now : Nat → Int}
    (he : tableSystem.enabled s (.pass now)) (hs : tableSystem.step s (.pass now) = .ok s') {k : List Char}
    {t : TxInfo} (ht : lookup TxInfo.txIp s'.list k = some t) : lookup TxInfo.txIp s.list k = some t := by
  obtain ⟨hmem, hk⟩ := of_lookup ht
  refine h.lookup_iff.2 ⟨?_, hk⟩
  rcases h.pass_cases he hs with hsame | ⟨l₁, u, l₂, hsplit, hrest, -⟩
  · exact hsame ▸ hmem
  · rw [hrest, List.mem_append] at hmem
    rw [hsplit, List.mem_append, List.mem_cons]
    exact hmem.imp_right Or.inr

private theorem TxTable.lookup_configure {body : JsonValue} {now : Int} (hshort : ShortTxIp body) (s : TxTable)
    (k : List Char) :
    lookup TxInfo.txIp (s.configure body now).list k = lookup TxInfo.txIp s.list k ∨
      ∃ g r, posted body = .ok g ∧ cstr (g .txIp) = k ∧ r.Holds g ∧
        lookup TxInfo.txIp (s.configure body now).list k =
          some (((lookup TxInfo.txIp s.list k).getD r).renewed now) := by
  cases hg : posted body with
  | error e =>
    left
    rw [(configure_error hg now s).1]
  | ok g =>
    obtain ⟨r, hholds, hip, hlist, -, -⟩ := configure_ok hg hshort now s
    rw [hlist, lookup_saveAndInit]
    by_cases hk : k = r.txIp
    · refine Or.inr ⟨g, r, rfl, by rw [hk, hip], hholds, ?_⟩
      rw [hk, Function.update_self]
    · exact Or.inl (Function.update_of_ne hk _ _)

theorem TxTable.Sound.creates {u v : TxTable} (hu : u.Sound) {e : TableEvent} (he : tableSystem.enabled u e)
    (hv : tableSystem.step u e = .ok v) {k : List Char} (hbefore : lookup TxInfo.txIp u.list k = none)
    (hafter : lookup TxInfo.txIp v.list k ≠ none) : Created k e v := by
  cases e with
  | configure body now =>
    obtain rfl : u.configure body now = v := by simpa [tableSystem] using hv
    rcases u.lookup_configure he.2 k with hsame | ⟨g, r, hg, hip, hholds, hsome⟩
    · exact absurd (hsame.trans hbefore) hafter
    · rw [hbefore] at hsome
      exact ⟨body, now, g, _, rfl, hg, hip, hsome, hholds⟩
  | pass now =>
    obtain ⟨t, ht⟩ := Option.ne_none_iff_exists'.1 hafter
    have hsome := hu.lookup_of_pass he hv ht
    rw [hbefore] at hsome
    cases hsome

private theorem TxTable.Sound.keepsCreated {u v : TxTable} (hu : u.Sound) {e : TableEvent}
    (he : tableSystem.enabled u e) (hv : tableSystem.step u e = .ok v) {k : List Char}
    (hafter : lookup TxInfo.txIp v.list k ≠ none) {b : TableEvent} (hcreated : Created k b u) : Created k b v := by
  obtain ⟨body, now, g, t, rfl, hg, hip, ht, hholds⟩ := hcreated
  cases e with
  | configure body' now' =>
    obtain rfl : u.configure body' now' = v := by simpa [tableSystem] using hv
    rcases u.lookup_configure he.2 k with hsame | ⟨g', r, -, -, -, hsome⟩
    · exact ⟨body, now, g, t, rfl, hg, hip, hsame.trans ht, hholds⟩
    · rw [ht] at hsome
      exact ⟨body, now, g, _, rfl, hg, hip, hsome, hholds⟩
  | pass now' =>
    obtain ⟨t', ht'⟩ := Option.ne_none_iff_exists'.1 hafter
    have hsame := hu.lookup_of_pass he hv ht'
    rw [ht, Option.some.injEq] at hsame
    exact ⟨body, now, g, t', rfl, hg, hip, ht', hsame ▸ hholds⟩

private theorem createdBy {clock : Int} {es : List TableEvent} (h : tableSystem.Allowed (.init clock) es)
    {s : TxTable} (hs : tableSystem.exec (.init clock) es = .ok s) {t : TxInfo} (ht : t ∈ s.list) :
    CreatedBy clock es t := by
  have hsound := (table_refines h hs).1
  have hlookup : lookup TxInfo.txIp s.list t.txIp = some t := hsound.lookup_iff.2 ⟨ht, rfl⟩
  have hlisted : lookup TxInfo.txIp s.list t.txIp ≠ none := by
    rw [hlookup]
    simp
  obtain ⟨p, e, q, hes, hcreated, hbefore, hsince⟩ :=
    System.exec_created (I := TxTable.Sound) (P := fun s => lookup TxInfo.txIp s.list t.txIp ≠ none)
      (J := Created t.txIp) (TxTable.sound_init clock) (fun hne => hne rfl) (fun u e v hu he hv => hu.next he hv)
      (fun u e v hu he hv hbefore hafter => hu.creates he hv (not_not.1 hbefore) hafter)
      (fun b u e v hu he hv hafter hcreated => hu.keepsCreated he hv hafter hcreated) h hs hlisted
  obtain ⟨body, now, g, t', rfl, hg, hip, ht', hholds⟩ := hcreated
  rw [hlookup, Option.some.injEq] at ht'
  subst ht'
  refine ⟨p, body, now, q, g, hes, hg, hip, hholds, fun u hu t' ht' hk => ?_, fun q₁ q₂ u hq hu => ?_⟩
  · exact hbefore u hu fun hnone => lookup_eq_none.1 hnone t' ht' hk
  · obtain ⟨t', ht'⟩ := Option.ne_none_iff_exists'.1 (hsince q₁ q₂ u hq hu)
    exact ⟨t', of_lookup ht'⟩

/-! ### Whole runs -/

/-- What the list is after a run. -/
structure IsLeaseTable (clock : Int) (es : List TableEvent) (s : TxTable) : Prop where
  distinct : (s.list.map TxInfo.txIp).Nodup
  /-- Every entry is in the state `TX_ST_INIT`, renewed by the last configuration of its `tx_ip` and with the
  configuration of the request that created it. -/
  entry : ∀ t ∈ s.list, t.state = .init ∧ lastConfigured t.txIp es = some t.initTime ∧ CreatedBy clock es t

/-- The event completes.  An entry leaves the list only by a pass that reads the clock there more than 10 seconds
after the last configuration; a configuration lists its own `tx-ip` and leaves the other entries as they are. -/
def KeepsLeases (s : TxTable) (e : TableEvent) : Prop :=
  ∃ s', tableSystem.step s e = .ok s' ∧
    (∀ t ∈ s.list, (∀ t' ∈ s'.list, t'.txIp ≠ t.txIp) →
      ∃ now i, e = .pass now ∧ s.list[i]? = some t ∧ 10 < now i - t.initTime) ∧
    ∀ body now g, e = .configure body now → posted body = .ok g →
      (∃ t ∈ s'.list, t.txIp = cstr (g .txIp)) ∧ ∀ t, t.txIp ≠ cstr (g .txIp) → (t ∈ s'.list ↔ t ∈ s.list)

private theorem TxTable.Sound.removed_by_pass {s s' : TxTable} (h : s.Sound) {e : TableEvent}
    (he : tableSystem.enabled s e) (hs : tableSystem.step s e = .ok s') {t : TxInfo} (ht : t ∈ s.list)
    (hgone : ∀ t' ∈ s'.list, t'.txIp ≠ t.txIp) :
    ∃ now i, e = .pass now ∧ s.list[i]? = some t ∧ 10 < now i - t.initTime := by
  cases e with
  | configure body now =>
    obtain rfl : s.configure body now = s' := by simpa [tableSystem] using hs
    have hbefore : lookup TxInfo.txIp s.list t.txIp = some t := h.lookup_iff.2 ⟨ht, rfl⟩
    have hafter : lookup TxInfo.txIp (s.configure body now).list t.txIp = none := lookup_eq_none.2 hgone
    rcases s.lookup_configure he.2 t.txIp with hsame | ⟨g, r, -, -, -, hsome⟩
    · rw [hafter, hbefore] at hsame
      cases hsame
    · rw [hafter] at hsome
      cases hsome
  | pass now =>
    rcases h.pass_cases he hs with hsame | ⟨l₁, u, l₂, hsplit, hrest, hlt⟩
    · rw [hsame] at hgone
      exact absurd rfl (hgone t ht)
    · rw [hrest] at hgone
      obtain rfl : t = u := by
        rw [hsplit, List.mem_append, List.mem_cons] at ht
        rcases ht with ht | rfl | ht
        · exact absurd rfl (hgone t (List.mem_append_left _ ht))
        · rfl
        · exact absurd rfl (hgone t (List.mem_append_right _ ht))
      exact ⟨now, l₁.length, rfl, by rw [hsplit]; simp, hlt⟩

private theorem TxTable.Sound.configure_frame {s : TxTable} (h : s.Sound) {body : JsonValue} {now : Int}
    (he : tableSystem.enabled s (.configure body now)) {g : TxField → List Char} (hg : posted body = .ok g) :
    (∃ t ∈ (s.configure body now).list, t.txIp = cstr (g .txIp)) ∧
      ∀ t, t.txIp ≠ cstr (g .txIp) → (t ∈ (s.configure body now).list ↔ t ∈ s.list) := by
  obtain ⟨r, -, hip, hlist, -, -⟩ := configure_ok hg he.2 now s
  have hsound : (s.configure body now).Sound := h.configure he.1 he.2
  constructor
  · have hlookup := congrFun (lookup_saveAndInit r now s.list) r.txIp
    rw [Function.update_self, ← hlist] at hlookup
    obtain ⟨hmem, hkey⟩ := of_lookup hlookup
    exact ⟨_, hmem, hkey.trans hip⟩
  · intro t ht
    have hsame : lookup TxInfo.txIp (s.configure body now).list t.txIp = lookup TxInfo.txIp s.list t.txIp := by
      rw [hlist, lookup_saveAndInit, Function.update_of_ne (by rw [hip]; exact ht)]
    have hiff : ∀ u : TxTable, u.Sound → (t ∈ u.list ↔ lookup TxInfo.txIp u.list t.txIp = some t) :=
      fun u hu => by rw [hu.lookup_iff, and_iff_left rfl]
    rw [hiff _ hsound, hiff _ h, hsame]

private theorem TxTable.Sound.keepsLeases {s : TxTable} (h : s.Sound) {e : TableEvent}
    (he : tableSystem.enabled s e) :
    KeepsLeases s e := by
  obtain ⟨s', hs, -⟩ := h.step he
  refine ⟨s', hs, fun t ht hgone => h.removed_by_pass he hs ht hgone, ?_⟩
  rintro body now g rfl hg
  obtain rfl : s.configure body now = s' := by simpa [tableSystem] using hs
  exact h.configure_frame he hg

/-- Every run under a clock that does not go back completes with a list that is a lease table, and so does every step
of it, from a list that is one to a list that keeps its leases. -/
theorem leaseTable_run {clock : Int} {es : List TableEvent} (h : tableSystem.Allowed (.init clock) es) :
    (∃ s, tableSystem.exec (.init clock) es = .ok s ∧ IsLeaseTable clock es s) ∧
      ∀ p e q, es = p ++ e :: q →
        ∃ u, tableSystem.exec (.init clock) p = .ok u ∧ IsLeaseTable clock p u ∧ KeepsLeases u e := by
  have hreached : ∀ p, tableSystem.Allowed (.init clock) p →
      ∃ s, tableSystem.exec (.init clock) p = .ok s ∧ s.Sound ∧ IsLeaseTable clock p s := by
    intro p hp
    obtain ⟨s, hs, hsound⟩ := System.exec_safe (TxTable.sound_init clock) (fun u e hu he => hu.step he) hp
    refine ⟨s, hs, hsound, hsound.distinct, fun t ht => ⟨hsound.state t ht, ?_, createdBy hp hs ht⟩⟩
    exact lastConfigured_eq hp hs ht
  constructor
  · obtain ⟨s, hs, -, htable⟩ := hreached es h
    exact ⟨s, hs, htable⟩
  · rintro p e q rfl
    obtain ⟨u, hu, hsound, htable⟩ := hreached p h.left
    exact ⟨u, hu, htable, hsound.keepsLeases (h.at hu)⟩

def renewedRun : List TableEvent :=
  [.configure (requestBody "10.0.0.1" "1") 100, .configure (requestBody "10.0.0.2" "2") 104,
    .configure (requestBody "10.0.0.1" "3") 109, .pass fun _ => 115]

theorem leaseTable_renewedRun :
    (∃ s, tableSystem.exec (.init 0) renewedRun = .ok s ∧ IsLeaseTable 0 renewedRun s) ∧
      ∀ p e q, renewedRun = p ++ e :: q →
        ∃ u, tableSystem.exec (.init 0) p = .ok u ∧ IsLeaseTable 0 p u ∧ KeepsLeases u e := by
  refine leaseTable_run ?_
  refine System.along_cons_ok ⟨by decide, by decide⟩ rfl ?_
  refine System.along_cons_ok ⟨by decide, by decide⟩ rfl ?_
  refine System.along_cons_ok ⟨by decide, by decide⟩ rfl ?_
  exact ⟨⟨by decide, fun _ _ _ => Int.le_refl _⟩, fun _ _ => trivial⟩

end Cloudein.Rest
