import Cloudein.Lib.Run
import Cloudein.Lib.Stoi
import Cloudein.Rest.TxStore

/-!
# The call-back address of the resource manager

`configuration_handle` takes the address of the first request and the port of its `Port` header as those of the
resource manager.  The two globals are written one after the other, with `std::stoi` in between, and the guard tests
both, so the address of the first request is there for good: when its port is rejected or zero, no later request can
set the port.
-/

namespace Cloudein.Rest

open CString Runs Stoi

structure ConfigurationRequest where
  remoteAddress : List Char
  port : List Char
  /-- The body, `none` when it does not parse. -/
  body : Option JsonValue
  now : Int

/-- The globals `rm_ip` and `rm_port`, and those of the list. -/
structure Manager where
  rmIp : CharArray 32
  rmPort : Int
  store : TxStore

structure ConfigurationResponse where
  zone : List Char
  userKey : List Char

structure ConnectRequest where
  host : List Char
  port : Int
  path : String
  sessionState : String
  subscriptionKey : String

/-- How `configuration_handle` ends: it replies and sends a request to the resource manager, or it throws. -/
inductive Outcome where
  | replied (res : ConfigurationResponse) (connect : ConnectRequest)
  | badPort (e : ConvError)
  | badBody
  | badMember (e : JsonException)

namespace Manager

def init : Manager := ⟨strncpy 32 [], 0, .init⟩

/-- The first statements of `configuration_handle`, with the exception of `std::stoi` if it throws. -/
def latchAddress (r : ConfigurationRequest) (s : Manager) : Manager × Option ConvError :=
  if cstr s.rmIp.val = [] ∧ s.rmPort = 0 then
    let s := { s with rmIp := strncpy 32 r.remoteAddress }
    match stoi r.port with
    | .error e => (s, some e)
    | .ok port => ({ s with rmPort := port }, none)
  else (s, none)

def restRequsetSessionConnect (state subscriptionKey : String) (s : Manager) : ConnectRequest :=
  ⟨cstr s.rmIp.val, s.rmPort, "/mslm/session-connection", state, subscriptionKey⟩

/-- `res["set-tx-configuration-resp"]` -/
def response (req : JsonValue) : Except JsonException ConfigurationResponse :=
  match req.member "zone" with
  | .error e => .error e
  | .ok zone => match req.member "userKey" with
    | .error e => .error e
    | .ok userKey => .ok ⟨zone, userKey⟩

/-- The rest of `configuration_handle`, on the parsed body. -/
def configure (req : JsonValue) (now : Int) (s : Manager) : Manager × Outcome :=
  match s.store.recvdataCopy req with
  | (store, some e) => ({ s with store := store }, .badMember e)
  | (store, none) =>
    let s := { s with store := store.saveSection now }
    match response req with
    | .error e => (s, .badMember e)
    | .ok res => (s, .replied res (s.restRequsetSessionConnect "connect" "2"))

def configurationHandle (r : ConfigurationRequest) (s : Manager) : Manager × Outcome :=
  match s.latchAddress r with
  | (s, some e) => (s, .badPort e)
  | (s, none) => match r.body with
    | none => (s, .badBody)
    | some req => s.configure req r.now

end Manager

/-- The remote address, as a C string, is not empty and has at most 31 characters.  A request that throws is answered
with an error, and the server goes on. -/
def configurationSystem : System Manager ConfigurationRequest Empty where
  enabled _ r := cstr r.remoteAddress ≠ [] ∧ (cstr r.remoteAddress).length < 32
  step s r := .ok (s.configurationHandle r).1

instance (s : Manager) (r : ConfigurationRequest) : Decidable (configurationSystem.enabled s r) :=
  inferInstanceAs (Decidable (cstr r.remoteAddress ≠ [] ∧ (cstr r.remoteAddress).length < 32))

/-- The two globals are unset, or the address and the port of one request. -/
def Latched (rs : List ConfigurationRequest) (s : Manager) : Prop :=
  (cstr s.rmIp.val = [] ∧ s.rmPort = 0) ∨
    ∃ r ∈ rs, cstr s.rmIp.val = cstr r.remoteAddress ∧ stoi r.port = .ok s.rmPort ∧ s.rmPort ≠ 0

/-- The globals are latched between any two requests, and a request whose port is rejected leaves them as they were.
-/
def LatchedThroughout (rs : List ConfigurationRequest) : Prop :=
  (∀ p q s, rs = p ++ q → configurationSystem.exec .init p = .ok s → Latched p s) ∧
    ∀ p r q s e, rs = p ++ r :: q → configurationSystem.exec .init p = .ok s →
      (s.configurationHandle r).2 = .badPort e →
      (s.configurationHandle r).1.rmIp = s.rmIp ∧ (s.configurationHandle r).1.rmPort = s.rmPort

namespace Manager

private theorem configure_rm (req : JsonValue) (now : Int) (s : Manager) :
    (s.configure req now).1.rmIp = s.rmIp ∧ (s.configure req now).1.rmPort = s.rmPort := by
  unfold configure
  split
  · exact ⟨rfl, rfl⟩
  · dsimp only
    split <;> exact ⟨rfl, rfl⟩

private theorem configure_ne_badPort (req : JsonValue) (now : Int) (s : Manager) (e : ConvError) :
    (s.configure req now).2 ≠ .badPort e := by
  unfold configure
  split
  · simp
  · dsimp only
    split <;> simp

theorem handle_rm (r : ConfigurationRequest) (s : Manager) :
    (s.configurationHandle r).1.rmIp = (s.latchAddress r).1.rmIp ∧
      (s.configurationHandle r).1.rmPort = (s.latchAddress r).1.rmPort := by
  unfold configurationHandle
  split
  · rename_i hlatch
    rw [hlatch]
    exact ⟨rfl, rfl⟩
  · rename_i s' hlatch
    rw [hlatch]
    split
    · exact ⟨rfl, rfl⟩
    · exact s'.configure_rm _ _

private theorem latch_of_badPort {r : ConfigurationRequest} {s : Manager} {e : ConvError}
    (h : (s.configurationHandle r).2 = .badPort e) : (s.latchAddress r).2 = some e := by
  unfold configurationHandle at h
  split at h
  · rename_i e' hlatch
    rw [hlatch]
    obtain rfl : e' = e := by simpa using h
    rfl
  · split at h
    · cases h
    · exact absurd h (configure_ne_badPort _ _ _ _)

theorem latch_init {r : ConfigurationRequest} :
    (init.latchAddress r).1.rmIp = strncpy 32 r.remoteAddress ∧
      ∀ port, stoi r.port = .ok port → (init.latchAddress r).1.rmPort = port ∧ (init.latchAddress r).2 = none := by
  have hunset : cstr init.rmIp.val = [] ∧ init.rmPort = 0 := by decide
  unfold latchAddress
  rw [if_pos hunset]
  cases hport : stoi r.port with
  | error e => exact ⟨rfl, by simp⟩
  | ok port =>
    refine ⟨rfl, fun port' h => ?_⟩
    obtain rfl : port = port' := by simpa using h
    exact ⟨rfl, rfl⟩

theorem latch_of_set {r : ConfigurationRequest} {s : Manager} (h : cstr s.rmIp.val ≠ []) :
    s.latchAddress r = (s, none) := by
  unfold latchAddress
  rw [if_neg fun hunset => h hunset.1]

/-- Once the address is set, no request changes the two globals. -/
theorem rm_of_set {es : List ConfigurationRequest} {s t : Manager} (hset : cstr s.rmIp.val ≠ [])
    (h : configurationSystem.exec s es = .ok t) : t.rmIp = s.rmIp ∧ t.rmPort = s.rmPort := by
  induction es generalizing s with
  | nil =>
    obtain rfl : s = t := by simpa using h
    exact ⟨rfl, rfl⟩
  | cons r es ih =>
    have hrm := handle_rm r s
    rw [latch_of_set hset] at hrm
    have hset' : cstr (s.configurationHandle r).1.rmIp.val ≠ [] := by
      rw [hrm.1]
      exact hset
    obtain ⟨hip, hport⟩ := ih hset' h
    exact ⟨hip.trans hrm.1, hport.trans hrm.2⟩

end Manager

theorem rm_after_first {r : ConfigurationRequest} {rs : List ConfigurationRequest} {s : Manager}
    (hr : configurationSystem.enabled .init r) (hs : configurationSystem.exec .init (r :: rs) = .ok s) :
    cstr s.rmIp.val = cstr r.remoteAddress ∧ s.rmPort = (Manager.init.latchAddress r).1.rmPort := by
  have hrm := Manager.init.handle_rm r
  have hip : cstr (Manager.init.configurationHandle r).1.rmIp.val = cstr r.remoteAddress := by
    rw [hrm.1, Manager.latch_init.1, cstr_strncpy hr.2]
  have hset : cstr (Manager.init.configurationHandle r).1.rmIp.val ≠ [] := by
    rw [hip]
    exact hr.1
  obtain ⟨hip', hport'⟩ := Manager.rm_of_set hset hs
  exact ⟨by rw [hip', hip], by rw [hport', hrm.2]⟩

private theorem latched_init : Latched [] .init := Or.inl (by decide)

private theorem latchedThroughout_nil : LatchedThroughout [] := by
  constructor
  · intro p q s hsplit hs
    obtain ⟨rfl, rfl⟩ := List.append_eq_nil_iff.1 hsplit.symm
    obtain rfl : Manager.init = s := by simpa using hs
    exact latched_init
  · intro p r q s e hsplit
    simp at hsplit

private theorem port_of_latchedThroughout {r : ConfigurationRequest} {rs : List ConfigurationRequest}
    (hr : configurationSystem.enabled .init r) (h : LatchedThroughout (r :: rs)) :
    ∃ port, stoi r.port = .ok port ∧ port ≠ 0 := by
  have hfirst : configurationSystem.exec .init [r] = .ok (Manager.init.configurationHandle r).1 := rfl
  have hip := (rm_after_first hr hfirst).1
  rcases h.1 [r] rs _ rfl hfirst with ⟨hempty, -⟩ | ⟨r', hr', -, hport, hne⟩
  · exact absurd (hip.symm.trans hempty) hr.1
  · obtain rfl : r' = r := by simpa using hr'
    exact ⟨_, hport, hne⟩

private theorem latchedThroughout_of_port {r : ConfigurationRequest} {rs : List ConfigurationRequest}
    (hr : configurationSystem.enabled .init r) {port : Int} (hok : stoi r.port = .ok port) (hne : port ≠ 0) :
    LatchedThroughout (r :: rs) := by
  obtain ⟨hport, hnone⟩ := (Manager.latch_init (r := r)).2 port hok
  constructor
  · intro p q s hsplit hs
    cases p with
    | nil =>
      obtain rfl : Manager.init = s := by simpa using hs
      exact latched_init
    | cons r' p =>
      obtain rfl : r = r' := (List.cons.inj hsplit).1
      obtain ⟨hip, hport'⟩ := rm_after_first hr hs
      rw [hport] at hport'
      exact Or.inr ⟨r, List.mem_cons_self, hip, by rw [hport', hok], by rw [hport']; exact hne⟩
  · intro p r' q s e hsplit hs hbad
    have hthrown := Manager.latch_of_badPort hbad
    -- `std::stoi` is called for the first request alone, and returns there.
    cases p with
    | nil =>
      obtain rfl : Manager.init = s := by simpa using hs
      obtain rfl : r = r' := (List.cons.inj hsplit).1
      rw [hnone] at hthrown
      cases hthrown
    | cons r'' p =>
      obtain rfl : r = r'' := (List.cons.inj hsplit).1
      have hset : cstr s.rmIp.val ≠ [] := by
        rw [(rm_after_first hr hs).1]
        exact hr.1
      rw [Manager.latch_of_set hset] at hthrown
      cases hthrown

/-- The address is latched throughout a run exactly when the run is empty or the port of its first request is read as
an integer that is not zero. -/
theorem latchedThroughout_iff {rs : List ConfigurationRequest} (h : configurationSystem.Allowed .init rs) :
    LatchedThroughout rs ↔ ∀ r ∈ rs.head?, ∃ port, stoi r.port = .ok port ∧ port ≠ 0 := by
  cases rs with
  | nil => exact iff_of_true latchedThroughout_nil (by simp)
  | cons r rs =>
    have hr : configurationSystem.enabled .init r := h.1
    constructor
    · intro hlatched r' hr'
      obtain rfl : r = r' := by simpa using hr'
      exact port_of_latchedThroughout hr hlatched
    · intro hport
      obtain ⟨port, hok, hne⟩ := hport r rfl
      exact latchedThroughout_of_port hr hok hne

def badPortThenGood : List ConfigurationRequest :=
  [⟨"10.0.0.1".toList, "none".toList, none, 0⟩, ⟨"10.0.0.2".toList, "8080".toList, none, 1⟩]

theorem bad_port_half_set : ¬ ∀ rs, configurationSystem.Allowed .init rs → LatchedThroughout rs := by
  intro h
  have hlatched := (h badPortThenGood (by decide)).1 badPortThenGood [] _ rfl rfl
  rcases hlatched with ⟨hempty, -⟩ | ⟨r, -, -, -, hne⟩
  · exact absurd hempty (by decide)
  · exact hne rfl

def goodPortThenBad : List ConfigurationRequest :=
  [⟨"10.0.0.2".toList, "8080".toList, none, 0⟩, ⟨"10.0.0.1".toList, "none".toList, none, 1⟩]

theorem latchedThroughout_goodPort :
    LatchedThroughout goodPortThenBad ↔ ∀ r ∈ goodPortThenBad.head?, ∃ port, stoi r.port = .ok port ∧ port ≠ 0 :=
  latchedThroughout_iff (by decide)

end Cloudein.Rest
