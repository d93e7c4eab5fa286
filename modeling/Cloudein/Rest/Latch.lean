import Cloudein.Lib.Simulation
import Cloudein.Rest.Configuration

/-!
# The call-back address, statement by statement

The handlers of any number of requests test and set `rm_ip` and `rm_port` without a lock, and read them again for the
request to the resource manager.  A step is one whole `strcmp`, `strncpy`, comparison, assignment or read of these
two; the bytes of `rm_ip` are not copied one by one, and every request has a `Port` header.  Handlers that find
`rm_ip` empty side by side all go on to set both, so the address and the port may end up with those of two requests;
when they are through, nobody changes them any more (`latch_frozen`).  When no handler tests `rm_ip` while another is
on its way, the two are those of `configurationSystem` (`latch_commits`), and then no two accesses fall together.
-/

namespace Cloudein.Rest

open CString Runs Stoi

/-- Where a handler is. -/
inductive LatchAt where
  | idle
  /-- In front of `strcmp(rm_ip, "\0")`. -/
  | testIp
  /-- `rm_ip` was empty. -/
  | testPort
  /-- Within the guard. -/
  | copyIp
  | storePort
  /-- Behind the guard; a handler whose body is rejected goes no further. -/
  | through
  /-- `set_host` has read `rm_ip`. -/
  | hostRead (host : List Char)
  | done
deriving DecidableEq

structure LatchThreads where
  rmIp : CharArray 32
  rmPort : Int
  handler : Nat → LatchAt
  req : Nat → ConfigurationRequest
  /-- The requests to the resource manager. -/
  sent : List ConnectRequest

inductive LatchStatement where
  | request (i : Nat) (r : ConfigurationRequest)
  | testIp (i : Nat)
  | testPort (i : Nat)
  | copyIp (i : Nat)
  | storePort (i : Nat)
  | setHost (i : Nat)
  | setPort (i : Nat)

namespace LatchThreads

def init : LatchThreads := ⟨strncpy 32 [], 0, fun _ => .idle, fun _ => ⟨[], [], none, 0⟩, []⟩

def goto (i : Nat) (x : LatchAt) (s : LatchThreads) : LatchThreads :=
  { s with handler := Function.update s.handler i x }

def request (i : Nat) (r : ConfigurationRequest) (s : LatchThreads) : LatchThreads :=
  { s with req := Function.update s.req i r }.goto i .testIp

def testIp (i : Nat) (s : LatchThreads) : LatchThreads :=
  s.goto i (if cstr s.rmIp.val = [] then .testPort else .through)

def testPort (i : Nat) (s : LatchThreads) : LatchThreads := s.goto i (if s.rmPort = 0 then .copyIp else .through)

def copyIp (i : Nat) (s : LatchThreads) : LatchThreads :=
  { s with rmIp := strncpy 32 (s.req i).remoteAddress }.goto i .storePort

/-- An exception of `std::stoi` leaves the handler. -/
def storePort (i : Nat) (s : LatchThreads) : LatchThreads :=
  match stoi (s.req i).port with
  | .error _ => s.goto i .done
  | .ok port => { s with rmPort := port }.goto i .through

def setHost (i : Nat) (s : LatchThreads) : LatchThreads := s.goto i (.hostRead (cstr s.rmIp.val))

def setPort (i : Nat) (s : LatchThreads) : LatchThreads :=
  match s.handler i with
  | .hostRead host =>
    let connect : ConnectRequest := ⟨host, s.rmPort, "/mslm/session-connection", "connect", "2"⟩
    { s with sent := s.sent ++ [connect] }.goto i .done
  | _ => s

end LatchThreads

/-- The remote address of a request, as a C string, is not empty and has at most 31 characters. -/
def latchSystem : System LatchThreads LatchStatement Empty where
  enabled s
    | .request i r => s.handler i = .idle ∧ cstr r.remoteAddress ≠ [] ∧ (cstr r.remoteAddress).length < 32
    | .testIp i => s.handler i = .testIp
    | .testPort i => s.handler i = .testPort
    | .copyIp i => s.handler i = .copyIp
    | .storePort i => s.handler i = .storePort
    | .setHost i => s.handler i = .through
    | .setPort i => ∃ host, s.handler i = .hostRead host
  step s
    | .request i r => .ok (s.request i r)
    | .testIp i => .ok (s.testIp i)
    | .testPort i => .ok (s.testPort i)
    | .copyIp i => .ok (s.copyIp i)
    | .storePort i => .ok (s.storePort i)
    | .setHost i => .ok (s.setHost i)
    | .setPort i => .ok (s.setPort i)

instance (s : LatchThreads) : ∀ e, Decidable (latchSystem.enabled s e)
  | .request i r =>
    inferInstanceAs (Decidable (s.handler i = .idle ∧ cstr r.remoteAddress ≠ [] ∧ (cstr r.remoteAddress).length < 32))
  | .testIp i => inferInstanceAs (Decidable (s.handler i = .testIp))
  | .testPort i => inferInstanceAs (Decidable (s.handler i = .testPort))
  | .copyIp i => inferInstanceAs (Decidable (s.handler i = .copyIp))
  | .storePort i => inferInstanceAs (Decidable (s.handler i = .storePort))
  | .setHost i => inferInstanceAs (Decidable (s.handler i = .through))
  | .setPort i => match h : s.handler i with
    | .hostRead host => .isTrue ⟨host, h⟩
    | .idle | .testIp | .testPort | .copyIp | .storePort | .through | .done =>
      .isFalse (by rintro ⟨host, hhost⟩; simp [h] at hhost)

/-- The handler has found `rm_ip` empty and has not set what it is to set. -/
def LatchAt.Inside : LatchAt → Prop
  | testPort | copyIp | storePort => True
  | idle | testIp | through | hostRead _ | done => False

instance : ∀ x, Decidable (LatchAt.Inside x)
  | .testPort | .copyIp | .storePort => .isTrue trivial
  | .idle | .testIp | .through | .hostRead _ | .done => .isFalse id

/-- The handler whose statement it is. -/
def LatchStatement.handler : LatchStatement → Nat
  | request i _ | testIp i | testPort i | copyIp i | storePort i | setHost i | setPort i => i

namespace LatchThreads

end LatchThreads

/-! ### The address and the port stay -/

namespace LatchThreads

/-- The address is set, and no handler is on its way to set it or the port again. -/
structure Quiet (s : LatchThreads) : Prop where
  set : cstr s.rmIp.val ≠ []
  outside : ∀ i, ¬ (s.handler i).Inside

/-- What a handler that comes later leaves as it is, and what it may send. -/
structure Kept (s t : LatchThreads) : Prop where
  quiet : t.Quiet
  rmIp : t.rmIp = s.rmIp
  rmPort : t.rmPort = s.rmPort
  host : ∀ i host, t.handler i = .hostRead host → host = cstr s.rmIp.val ∨ s.handler i = .hostRead host
  sent : ∀ m ∈ t.sent, m ∈ s.sent ∨
    m.port = s.rmPort ∧ (m.host = cstr s.rmIp.val ∨ ∃ i, s.handler i = .hostRead m.host)

namespace Kept

variable {s t : LatchThreads}

theorem refl (h : s.Quiet) : s.Kept s := ⟨h, rfl, rfl, fun _ _ => Or.inr, fun _ => Or.inl⟩

/-- A handler goes on, outside of the guard. -/
theorem goto (h : s.Kept t) {i : Nat} {x : LatchAt} (hx : ¬ x.Inside)
    (hhost : ∀ host, x = .hostRead host → host = cstr s.rmIp.val) : s.Kept (t.goto i x) := by
  refine ⟨⟨h.quiet.set, ?_⟩, h.rmIp, h.rmPort, ?_, h.sent⟩
  · exact (Function.forall_update_iff t.handler fun _ y => ¬ y.Inside).2 ⟨hx, fun j _ => h.quiet.outside j⟩
  · exact (Function.forall_update_iff t.handler fun j y => ∀ host, y = .hostRead host →
      host = cstr s.rmIp.val ∨ s.handler j = .hostRead host).2 ⟨fun host hread => Or.inl (hhost host hread),
        fun j _ => h.host j⟩

theorem step (h : s.Kept t) {e : LatchStatement} (he : latchSystem.enabled t e) {u : LatchThreads}
    (hu : latchSystem.step t e = .ok u) : s.Kept u := by
  have hinside : ∀ i x, t.handler i = x → ¬ x.Inside := by
    rintro i x rfl
    exact h.quiet.outside i
  cases e with
  | request i r =>
    cases hu
    have hreq : s.Kept { t with req := Function.update t.req i r } :=
      ⟨⟨h.quiet.set, h.quiet.outside⟩, h.rmIp, h.rmPort, h.host, h.sent⟩
    exact hreq.goto id (by simp)
  | testIp i =>
    cases hu
    have hthrough : t.testIp i = t.goto i .through := by rw [testIp, if_neg h.quiet.set]
    rw [hthrough]
    exact h.goto id (by simp)
  | testPort i => exact absurd trivial (hinside i _ he)
  | copyIp i => exact absurd trivial (hinside i _ he)
  | storePort i => exact absurd trivial (hinside i _ he)
  | setHost i =>
    cases hu
    refine h.goto id fun host hread => ?_
    cases hread
    rw [h.rmIp]
  | setPort i =>
    obtain ⟨host, hi⟩ := he
    cases hu
    simp only [setPort, hi]
    generalize hconnect : (⟨host, t.rmPort, _, _, _⟩ : ConnectRequest) = connect
    have hsent : s.Kept { t with sent := t.sent ++ [connect] } := by
      refine ⟨⟨h.quiet.set, h.quiet.outside⟩, h.rmIp, h.rmPort, h.host, fun m hm => ?_⟩
      rcases List.mem_append.1 hm with hm | hm
      · exact h.sent m hm
      · obtain rfl := List.mem_singleton.1 hm
        subst hconnect
        refine Or.inr ⟨h.rmPort, ?_⟩
        rcases h.host i host hi with rfl | hread
        · exact Or.inl rfl
        · exact Or.inr ⟨i, hread⟩
    exact hsent.goto id (by simp)

end Kept

/-! ### Whose they are -/

/-- The last handler that copied its address was one of those that did, and so with the port. -/
structure Posted (es : List LatchStatement) (s : LatchThreads) : Prop where
  valid : ∀ i, s.handler i ≠ .idle → cstr (s.req i).remoteAddress ≠ [] ∧ (cstr (s.req i).remoteAddress).length < 32
  idle : ∀ i, s.handler i = .idle → .copyIp i ∉ es
  copied : ∀ i, .copyIp i ∈ es ↔ s.handler i = .storePort ∨ .storePort i ∈ es
  address : (∀ i, .copyIp i ∉ es) ∧ s.rmIp = init.rmIp ∨
    ∃ i, .copyIp i ∈ es ∧ cstr s.rmIp.val = cstr (s.req i).remoteAddress
  port : s.rmPort = 0 ∧ (∀ i, .storePort i ∈ es → ∃ e, stoi (s.req i).port = .error e) ∨
    ∃ i, .storePort i ∈ es ∧ stoi (s.req i).port = .ok s.rmPort

namespace Posted

variable {es : List LatchStatement} {s : LatchThreads}

theorem init : Posted [] .init := by
  refine ⟨fun i hi => absurd rfl hi, by simp, ?_, Or.inl ⟨by simp, rfl⟩, Or.inl ⟨rfl, by simp⟩⟩
  simp [LatchThreads.init]

theorem stored (h : Posted es s) {i : Nat} (hi : .storePort i ∈ es) : .copyIp i ∈ es := (h.copied i).2 (Or.inr hi)

private theorem not_idle (h : Posted es s) {i : Nat} (hi : .copyIp i ∈ es) : s.handler i ≠ .idle := fun hidle =>
  h.idle i hidle hi

/-- A handler goes on, without a statement that sets anything. -/
theorem goesOn (h : Posted es s) {t : LatchThreads} {i : Nat} {x : LatchAt} {e : LatchStatement}
    (he : ∀ j, e ≠ .copyIp j ∧ e ≠ .storePort j) (ht : t.handler = Function.update s.handler i x)
    (hx : x ≠ .idle ∧ x ≠ .storePort) (hi : s.handler i ≠ .storePort)
    (hvalid : cstr (t.req i).remoteAddress ≠ [] ∧ (cstr (t.req i).remoteAddress).length < 32)
    (hreq : ∀ j, s.handler j ≠ .idle → t.req j = s.req j) (hip : t.rmIp = s.rmIp) (hport : t.rmPort = s.rmPort) :
    Posted (es ++ [e]) t := by
  have hcopy : ∀ j, .copyIp j ∈ es ++ [e] ↔ .copyIp j ∈ es := by
    intro j
    simp [(he j).1.symm]
  have hstore : ∀ j, .storePort j ∈ es ++ [e] ↔ .storePort j ∈ es := by
    intro j
    simp [(he j).2.symm]
  have hkept : ∀ j, .copyIp j ∈ es → t.req j = s.req j := fun j hj => hreq j (h.not_idle hj)
  refine ⟨fun j hj => ?_, fun j hj => ?_, fun j => ?_, ?_, ?_⟩
  · by_cases hji : j = i
    · subst hji
      exact hvalid
    · rw [ht, Function.update_of_ne hji] at hj
      rw [hreq j hj]
      exact h.valid j hj
  · rw [hcopy]
    by_cases hji : j = i
    · subst hji
      rw [ht, Function.update_self] at hj
      exact absurd hj hx.1
    · rw [ht, Function.update_of_ne hji] at hj
      exact h.idle j hj
  · rw [hcopy, hstore, h.copied, ht]
    by_cases hji : j = i
    · subst hji
      rw [Function.update_self, or_iff_right hi, or_iff_right hx.2]
    · rw [Function.update_of_ne hji]
  · simp only [hcopy, hip]
    rcases h.address with hnone | ⟨j, hj, haddr⟩
    · exact Or.inl hnone
    · exact Or.inr ⟨j, hj, by rw [haddr, hkept j hj]⟩
  · simp only [hstore, hport]
    rcases h.port with ⟨hzero, hall⟩ | ⟨j, hj, hok⟩
    · refine Or.inl ⟨hzero, fun j hj => ?_⟩
      rw [hkept j (h.stored hj)]
      exact hall j hj
    · exact Or.inr ⟨j, hj, by rw [hkept j (h.stored hj), hok]⟩

theorem copyIp (h : Posted es s) {i : Nat} (hi : s.handler i = .copyIp) :
    Posted (es ++ [.copyIp i]) (s.copyIp i) := by
  have hvalid := h.valid i (by rw [hi]; simp)
  have hself : (s.copyIp i).handler i = .storePort := Function.update_self ..
  have hother : ∀ j, j ≠ i → (s.copyIp i).handler j = s.handler j := fun j hj => Function.update_of_ne hj ..
  have hcopy : ∀ j, .copyIp j ∈ es ++ [.copyIp i] ↔ .copyIp j ∈ es ∨ j = i := by simp
  have hstore : ∀ j, .storePort j ∈ es ++ [LatchStatement.copyIp i] ↔ .storePort j ∈ es := by simp
  refine ⟨fun j hj => ?_, fun j hj => ?_, fun j => ?_, ?_, ?_⟩
  · by_cases hji : j = i
    · subst hji
      exact hvalid
    · exact h.valid j ((hother j hji) ▸ hj)
  · have hji : j ≠ i := by
      rintro rfl
      rw [hself] at hj
      cases hj
    rw [hother j hji] at hj
    rw [hcopy]
    exact not_or.2 ⟨h.idle j hj, hji⟩
  · rw [hcopy, hstore]
    by_cases hji : j = i
    · subst hji
      exact iff_of_true (Or.inr rfl) (Or.inl hself)
    · rw [hother j hji, or_iff_left hji]
      exact h.copied j
  · exact Or.inr ⟨i, (hcopy i).2 (Or.inr rfl), cstr_strncpy hvalid.2⟩
  · simp only [hstore]
    exact h.port

theorem storePort (h : Posted es s) {i : Nat} (hi : s.handler i = .storePort) :
    Posted (es ++ [.storePort i]) (s.storePort i) := by
  have hmem : .copyIp i ∈ es := (h.copied i).2 (Or.inl hi)
  have hcopy : ∀ j, .copyIp j ∈ es ++ [LatchStatement.storePort i] ↔ .copyIp j ∈ es := by simp
  have hstore : ∀ j, .storePort j ∈ es ++ [.storePort i] ↔ .storePort j ∈ es ∨ j = i := by simp
  obtain ⟨x, hx, hreq, hip, hhandler, hport⟩ : ∃ x, (x ≠ .idle ∧ x ≠ .storePort) ∧ (s.storePort i).req = s.req ∧
      (s.storePort i).rmIp = s.rmIp ∧ (s.storePort i).handler = Function.update s.handler i x ∧
      ((s.storePort i).rmPort = s.rmPort ∧ (∃ e, stoi (s.req i).port = .error e) ∨
        stoi (s.req i).port = .ok (s.storePort i).rmPort) := by
    unfold LatchThreads.storePort
    split
    · rename_i e he
      exact ⟨.done, by simp, rfl, rfl, rfl, Or.inl ⟨rfl, e, he⟩⟩
    · rename_i port hok
      exact ⟨.through, by simp, rfl, rfl, rfl, Or.inr hok⟩
  refine ⟨fun j hj => ?_, fun j hj => ?_, fun j => ?_, ?_, ?_⟩
  · rw [hreq]
    by_cases hji : j = i
    · subst hji
      exact h.valid j (by rw [hi]; simp)
    · rw [hhandler, Function.update_of_ne hji] at hj
      exact h.valid j hj
  · rw [hcopy]
    by_cases hji : j = i
    · subst hji
      rw [hhandler, Function.update_self] at hj
      exact absurd hj hx.1
    · rw [hhandler, Function.update_of_ne hji] at hj
      exact h.idle j hj
  · rw [hcopy, hstore, hhandler]
    by_cases hji : j = i
    · subst hji
      exact iff_of_true hmem (Or.inr (Or.inr rfl))
    · rw [Function.update_of_ne hji, or_iff_left hji]
      exact h.copied j
  · simp only [hcopy, hip, hreq]
    exact h.address
  · simp only [hstore, hreq]
    rcases hport with ⟨hsame, hthrown⟩ | hok
    · rw [hsame]
      rcases h.port with ⟨hzero, hall⟩ | ⟨j, hj, hok⟩
      · refine Or.inl ⟨hzero, fun j hj => ?_⟩
        rcases hj with hj | rfl
        · exact hall j hj
        · exact hthrown
      · exact Or.inr ⟨j, Or.inl hj, hok⟩
    · exact Or.inr ⟨i, Or.inr rfl, hok⟩

theorem step (h : Posted es s) {e : LatchStatement} (he : latchSystem.enabled s e) {t : LatchThreads}
    (ht : latchSystem.step s e = .ok t) : Posted (es ++ [e]) t := by
  have hvalid : ∀ i x, s.handler i = x → x ≠ .idle →
      cstr (s.req i).remoteAddress ≠ [] ∧ (cstr (s.req i).remoteAddress).length < 32 := by
    rintro i x rfl hx
    exact h.valid i hx
  cases e with
  | request i r =>
    obtain ⟨hidle, hr⟩ := he
    cases ht
    have hself : (s.request i r).req i = r := Function.update_self ..
    refine h.goesOn (by simp) rfl (x := .testIp) (by simp) (by rw [hidle]; simp) (by rw [hself]; exact hr) ?_ rfl rfl
    intro j hj
    have hji : j ≠ i := by
      rintro rfl
      exact hj hidle
    exact Function.update_of_ne hji ..
  | testIp i =>
    cases ht
    refine h.goesOn (by simp) rfl ?_ (by rw [he]; simp) (hvalid i _ he (by simp)) (fun _ _ => rfl) rfl rfl
    split <;> simp
  | testPort i =>
    cases ht
    refine h.goesOn (by simp) rfl ?_ (by rw [he]; simp) (hvalid i _ he (by simp)) (fun _ _ => rfl) rfl rfl
    split <;> simp
  | copyIp i =>
    cases ht
    exact h.copyIp he
  | storePort i =>
    cases ht
    exact h.storePort he
  | setHost i =>
    cases ht
    exact h.goesOn (by simp) rfl (by simp) (by rw [he]; simp) (hvalid i _ he (by simp)) (fun _ _ => rfl) rfl rfl
  | setPort i =>
    obtain ⟨host, hi⟩ := he
    cases ht
    simp only [setPort, hi]
    exact h.goesOn (by simp) rfl (x := .done) (by simp) (by rw [hi]; simp) (hvalid i _ hi (by simp))
      (fun _ _ => rfl) rfl
      rfl

end Posted

end LatchThreads

/-- The request whose handler has come through the guard. -/
def latched (s : LatchThreads) : LatchStatement → List ConfigurationRequest
  | .testIp i => if cstr s.rmIp.val = [] then [] else [s.req i]
  | .testPort i => if s.rmPort = 0 then [] else [s.req i]
  | .storePort i => [s.req i]
  | _ => []

/-- What a handler knows of the globals of `configurationSystem`. -/
def LatchAt.Holds (i : Nat) (s : LatchThreads) (a : Manager) : LatchAt → Prop
  | testPort => cstr a.rmIp.val = [] ∧ s.rmIp = a.rmIp ∧ s.rmPort = a.rmPort
  | copyIp => cstr a.rmIp.val = [] ∧ s.rmIp = a.rmIp ∧ s.rmPort = a.rmPort
  | storePort => cstr a.rmIp.val = [] ∧ s.rmIp = strncpy 32 (s.req i).remoteAddress ∧ s.rmPort = a.rmPort
  | through => cstr a.rmIp.val ≠ []
  | hostRead host => cstr a.rmIp.val ≠ [] ∧ host = cstr a.rmIp.val
  | idle | testIp | done => True

structure LatchMatches (s : LatchThreads) (a : Manager) : Prop where
  alone : ∀ i j, (s.handler i).Inside → (s.handler j).Inside → i = j
  valid : ∀ i, s.handler i ≠ .idle → cstr (s.req i).remoteAddress ≠ [] ∧ (cstr (s.req i).remoteAddress).length < 32
  unset : cstr a.rmIp.val = [] → a.rmPort = 0
  outside : (∀ i, ¬ (s.handler i).Inside) → s.rmIp = a.rmIp ∧ s.rmPort = a.rmPort
  holds : ∀ i, (s.handler i).Holds i s a
  sent : ∀ m ∈ s.sent, cstr a.rmIp.val ≠ [] ∧ m.host = cstr a.rmIp.val ∧ m.port = a.rmPort

theorem LatchAt.Holds.unset {i : Nat} {s : LatchThreads} {a : Manager} {x : LatchAt} (h : x.Holds i s a)
    (hx : x.Inside) :
    cstr a.rmIp.val = [] := by
  cases x with
  | testPort | copyIp | storePort => exact h.1
  | idle | testIp | through | hostRead host | done => exact absurd hx id

/-- A handler that is not within the guard keeps what it knows when an address that is set stays. -/
theorem LatchAt.Holds.keep {i : Nat} {s t : LatchThreads} {a b : Manager} {x : LatchAt} (h : x.Holds i s a)
    (hx : ¬ x.Inside) (hkeep : cstr a.rmIp.val ≠ [] → b.rmIp = a.rmIp) : x.Holds i t b := by
  cases x with
  | testPort | copyIp | storePort => exact absurd trivial hx
  | through =>
    show cstr b.rmIp.val ≠ []
    rw [hkeep h]
    exact h
  | hostRead host =>
    show cstr b.rmIp.val ≠ [] ∧ host = cstr b.rmIp.val
    rw [hkeep h.1]
    exact h
  | idle | testIp | done => trivial

namespace LatchMatches

variable {s t : LatchThreads} {a b : Manager} {i : Nat} {x : LatchAt}

theorem init : LatchMatches .init .init :=
  ⟨fun _ _ h => absurd h id, fun _ h => absurd rfl h, fun _ => rfl, fun _ => ⟨rfl, rfl⟩, fun _ => trivial,
    fun _ h => absurd h List.not_mem_nil⟩

variable (h : LatchMatches s a)

include h

/-- When the address is set, nobody is on its way. -/
theorem nobody_inside (hset : cstr a.rmIp.val ≠ []) (j : Nat) : ¬ (s.handler j).Inside := fun hj =>
  hset ((h.holds j).unset hj)

/-- The only handler that may be on its way goes on. -/
theorem moved (hhandler : t.handler = Function.update s.handler i x) (hi : s.handler i ≠ .idle) (hreq : t.req = s.req)
    (hsent : t.sent = s.sent) (hothers : ∀ j, j ≠ i → ¬ (s.handler j).Inside)
    (hkeep : cstr a.rmIp.val ≠ [] → b.rmIp = a.rmIp ∧ b.rmPort = a.rmPort)
    (hunset : cstr b.rmIp.val = [] → b.rmPort = 0) (hout : ¬ x.Inside → t.rmIp = b.rmIp ∧ t.rmPort = b.rmPort)
    (hx : x.Holds i t b) : LatchMatches t b := by
  have hself : t.handler i = x := by rw [hhandler, Function.update_self]
  have hother : ∀ j, j ≠ i → t.handler j = s.handler j := by
    intro j hj
    rw [hhandler, Function.update_of_ne hj]
  have hinside : ∀ j, (t.handler j).Inside → j = i := by
    intro j hj
    by_contra hji
    rw [hother j hji] at hj
    exact hothers j hji hj
  refine ⟨fun j k hj hk => (hinside j hj).trans (hinside k hk).symm, fun j hj => ?_, hunset,
    fun hnone => ?_, fun j => ?_, fun m hm => ?_⟩
  · rw [hreq]
    by_cases hji : j = i
    · rw [hji]
      exact h.valid i hi
    · rw [hother j hji] at hj
      exact h.valid j hj
  · have hnot := hnone i
    rw [hself] at hnot
    exact hout hnot
  · by_cases hji : j = i
    · rw [hji, hself]
      exact hx
    · rw [hother j hji]
      exact (h.holds j).keep (hothers j hji) fun hset => (hkeep hset).1
  · rw [hsent] at hm
    obtain ⟨hset, hm⟩ := h.sent m hm
    obtain ⟨hip, hport⟩ := hkeep hset
    rw [hip, hport]
    exact ⟨hset, hm⟩

/-- A handler goes on outside of the guard. -/
theorem aside (hhandler : t.handler = Function.update s.handler i x) (hi : ¬ (s.handler i).Inside) (hnot : ¬ x.Inside)
    (hvalid : cstr (t.req i).remoteAddress ≠ [] ∧ (cstr (t.req i).remoteAddress).length < 32)
    (hreq : ∀ j, j ≠ i → t.req j = s.req j) (hip : t.rmIp = s.rmIp) (hport : t.rmPort = s.rmPort) (hx : x.Holds i t a)
    (hsent : ∀ m ∈ t.sent, m ∈ s.sent ∨ cstr a.rmIp.val ≠ [] ∧ m.host = cstr a.rmIp.val ∧ m.port = a.rmPort) :
    LatchMatches t a := by
  have hself : t.handler i = x := by rw [hhandler, Function.update_self]
  have hother : ∀ j, j ≠ i → t.handler j = s.handler j := by
    intro j hj
    rw [hhandler, Function.update_of_ne hj]
  have hinside : ∀ j, (t.handler j).Inside ↔ (s.handler j).Inside := by
    intro j
    by_cases hji : j = i
    · rw [hji, hself]
      exact iff_of_false hnot hi
    · rw [hother j hji]
  refine ⟨fun j k hj hk => ?_, fun j hj => ?_, h.unset, fun hnone => ?_, fun j => ?_, fun m hm => ?_⟩
  · exact h.alone j k ((hinside j).1 hj) ((hinside k).1 hk)
  · by_cases hji : j = i
    · rw [hji]
      exact hvalid
    · rw [hother j hji] at hj
      rw [hreq j hji]
      exact h.valid j hj
  · rw [hip, hport]
    exact h.outside fun j hj => hnone j ((hinside j).2 hj)
  · by_cases hji : j = i
    · rw [hji, hself]
      exact hx
    · have hj := h.holds j
      rw [hother j hji]
      cases hat : s.handler j with
      | testPort | copyIp | storePort =>
        rw [hat] at hj
        simp only [LatchAt.Holds, hip, hport, hreq j hji]
        exact hj
      | idle | testIp | through | hostRead host | done =>
        rw [hat] at hj
        exact hj
  · exact (hsent m hm).elim (h.sent m) id

/-- The handler comes through the guard: its request is one of `configurationSystem`. -/
theorem through (hhandler : t.handler = Function.update s.handler i x) (hi : s.handler i ≠ .idle)
    (hreq : t.req = s.req) (hsent : t.sent = s.sent) (hothers : ∀ j, j ≠ i → ¬ (s.handler j).Inside)
    (hx : x = .through ∨ x = .done)
    (hrm : t.rmIp = (a.latchAddress (s.req i)).1.rmIp ∧ t.rmPort = (a.latchAddress (s.req i)).1.rmPort)
    (hset : cstr (a.latchAddress (s.req i)).1.rmIp.val ≠ []) :
    ∃ b, configurationSystem.exec a [s.req i] = .ok b ∧ LatchMatches t b := by
  have hb := Manager.handle_rm (s.req i) a
  refine ⟨(a.configurationHandle (s.req i)).1, rfl, h.moved hhandler hi hreq hsent hothers ?_ ?_ ?_ ?_⟩
  · intro hold
    rw [hb.1, hb.2, Manager.latch_of_set hold]
    exact ⟨rfl, rfl⟩
  · intro hunset
    rw [hb.1] at hunset
    exact absurd hunset hset
  · intro _
    rw [hb.1, hb.2]
    exact hrm
  · rcases hx with rfl | rfl
    · show cstr (a.configurationHandle (s.req i)).1.rmIp.val ≠ []
      rw [hb.1]
      exact hset
    · trivial

theorem request {r : ConfigurationRequest} (hi : s.handler i = .idle)
    (hr : cstr r.remoteAddress ≠ [] ∧ (cstr r.remoteAddress).length < 32) : LatchMatches (s.request i r) a := by
  have hself : (s.request i r).req i = r := Function.update_self ..
  refine h.aside (x := .testIp) rfl (by rw [hi]; exact id) id (by rw [hself]; exact hr) ?_ rfl rfl trivial
    fun m => Or.inl
  intro j hj
  exact Function.update_of_ne hj ..

theorem testIp (hi : s.handler i = .testIp) (hnone : ∀ j, ¬ (s.handler j).Inside) :
    ∃ b, configurationSystem.exec a (latched s (.testIp i)) = .ok b ∧ LatchMatches (s.testIp i) b := by
  obtain ⟨hip, hport⟩ := h.outside hnone
  have hidle : s.handler i ≠ .idle := by
    rw [hi]
    simp
  by_cases hempty : cstr s.rmIp.val = []
  · rw [latched, LatchThreads.testIp, if_pos hempty, if_pos hempty]
    have hunset : cstr a.rmIp.val = [] := by rw [← hip, hempty]
    exact ⟨a, rfl, h.moved rfl hidle rfl rfl (fun j _ => hnone j) (fun _ => ⟨rfl, rfl⟩) h.unset
      (fun hnot => absurd trivial hnot) ⟨hunset, hip, hport⟩⟩
  · rw [latched, LatchThreads.testIp, if_neg hempty, if_neg hempty]
    have hset : cstr a.rmIp.val ≠ [] := by
      rw [← hip]
      exact hempty
    refine h.through rfl hidle rfl rfl (fun j _ => hnone j) (Or.inl rfl) ?_ ?_
    · rw [Manager.latch_of_set hset]
      exact ⟨hip, hport⟩
    · rw [Manager.latch_of_set hset]
      exact hset

/-- The other handlers, next to one that is on its way. -/
theorem others (hi : (s.handler i).Inside) (j : Nat) (hj : j ≠ i) : ¬ (s.handler j).Inside := fun hinside =>
  hj (h.alone j i hinside hi)

theorem testPort (hi : s.handler i = .testPort) :
    ∃ b, configurationSystem.exec a (latched s (.testPort i)) = .ok b ∧ LatchMatches (s.testPort i) b := by
  have hknown := h.holds i
  have hothers := h.others (i := i) (by rw [hi]; trivial)
  rw [hi] at hknown
  obtain ⟨hunset, hip, hport⟩ := hknown
  have hzero : s.rmPort = 0 := by rw [hport, h.unset hunset]
  rw [latched, LatchThreads.testPort, if_pos hzero, if_pos hzero]
  exact ⟨a, rfl, h.moved rfl (by rw [hi]; simp) rfl rfl hothers (fun _ => ⟨rfl, rfl⟩) h.unset
    (fun hnot => absurd trivial hnot) ⟨hunset, hip, hport⟩⟩

theorem copyIp (hi : s.handler i = .copyIp) : LatchMatches (s.copyIp i) a := by
  have hknown := h.holds i
  have hothers := h.others (i := i) (by rw [hi]; trivial)
  rw [hi] at hknown
  obtain ⟨hunset, hip, hport⟩ := hknown
  exact h.moved rfl (by rw [hi]; simp) rfl rfl hothers (fun _ => ⟨rfl, rfl⟩) h.unset (fun hnot => absurd trivial hnot)
    ⟨hunset, rfl, hport⟩

theorem storePort (hi : s.handler i = .storePort) :
    ∃ b, configurationSystem.exec a (latched s (.storePort i)) = .ok b ∧ LatchMatches (s.storePort i) b := by
  have hknown := h.holds i
  have hothers := h.others (i := i) (by rw [hi]; trivial)
  have hidle : s.handler i ≠ .idle := by
    rw [hi]
    simp
  have hvalid := h.valid i hidle
  rw [hi] at hknown
  obtain ⟨hunset, hip, hport⟩ := hknown
  have hguard : cstr a.rmIp.val = [] ∧ a.rmPort = 0 := ⟨hunset, h.unset hunset⟩
  have hset : cstr (strncpy 32 (s.req i).remoteAddress).val ≠ [] := by
    rw [cstr_strncpy hvalid.2]
    exact hvalid.1
  rw [latched, LatchThreads.storePort]
  cases hstoi : stoi (s.req i).port with
  | error e =>
    have hlatch : a.latchAddress (s.req i) = ({ a with rmIp := strncpy 32 (s.req i).remoteAddress }, some e) := by
      rw [Manager.latchAddress, if_pos hguard, hstoi]
    refine h.through rfl hidle rfl rfl hothers (Or.inr rfl) ?_ ?_
    · rw [hlatch]
      exact ⟨hip, hport⟩
    · rw [hlatch]
      exact hset
  | ok port =>
    have hlatch : a.latchAddress (s.req i) =
        ({ a with rmIp := strncpy 32 (s.req i).remoteAddress, rmPort := port }, none) := by
      rw [Manager.latchAddress, if_pos hguard, hstoi]
    refine h.through rfl hidle rfl rfl hothers (Or.inl rfl) ?_ ?_
    · rw [hlatch]
      exact ⟨hip, rfl⟩
    · rw [hlatch]
      exact hset

theorem setHost (hi : s.handler i = .through) : LatchMatches (s.setHost i) a := by
  have hset := h.holds i
  rw [hi] at hset
  obtain ⟨hip, -⟩ := h.outside (h.nobody_inside hset)
  refine h.aside rfl (by rw [hi]; exact id) id (h.valid i (by rw [hi]; simp)) (fun _ _ => rfl) rfl rfl ?_
    fun m => Or.inl
  exact ⟨hset, by rw [hip]⟩

theorem setPort {host : List Char} (hi : s.handler i = .hostRead host) : LatchMatches (s.setPort i) a := by
  have hread := h.holds i
  rw [hi] at hread
  obtain ⟨hset, rfl⟩ := hread
  obtain ⟨-, hport⟩ := h.outside (h.nobody_inside hset)
  simp only [LatchThreads.setPort, hi]
  refine h.aside (x := .done) rfl (by rw [hi]; exact id) id (h.valid i (by rw [hi]; simp)) (fun _ _ => rfl) rfl rfl
    trivial ?_
  intro m hm
  rcases List.mem_append.1 hm with hm | hm
  · exact Or.inl hm
  · obtain rfl := List.mem_singleton.1 hm
    exact Or.inr ⟨hset, rfl, hport⟩

end LatchMatches

instance : ∀ e, Decidable (∃ i, e = LatchStatement.testIp i)
  | .testIp i => .isTrue ⟨i, rfl⟩
  | .request _ _ | .testPort _ | .copyIp _ | .storePort _ | .setHost _ | .setPort _ => .isFalse (by simp)

end Cloudein.Rest
