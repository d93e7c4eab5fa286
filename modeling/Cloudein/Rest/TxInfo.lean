import Cloudein.Lib.CString
import Mathlib.Logic.Function.Basic

/-!
# The record of a transmitter and the copy of a request into it

`struct tx_info` begins with eleven arrays of 64 characters.  `recvdata_copy` fills ten of them from the members of
the object `set-tx-configuration` of a request, one after another, and throws at the first member that is missing or
not a string, with the members before it already copied.  So a copy that returns replaces the ten arrays as a whole,
by the configuration the request posts (`recvdataCopy_ok`).  A `Char` stands for one `char` of a `std::string`.
-/

namespace Cloudein.Rest

open CString

abbrev maxTokenStringLength : Nat := 64

inductive TxState where
  | empty
  | init
  | ready
  | readyFail
  | authFail
  | connected
  | connectFail
  | timeout
  | disconnected
  | release
  | reboot
  | rebootFail
  | inactiveOut
  | max
  | connecting
deriving DecidableEq, Repr

/-- The character arrays of `struct tx_info`, in the order of their declaration. -/
inductive TxField where
  | txIp
  | port1
  | port2
  | port3
  | port4
  | port5
  | zoneId
  | userKey
  | subscriptionKey
  | iLOport
  | zone
deriving DecidableEq, Repr

def TxField.all : List TxField :=
  [.txIp, .port1, .port2, .port3, .port4, .port5, .zoneId, .userKey, .subscriptionKey, .iLOport, .zone]

/-- `struct tx_info`, without the fields that nothing reads or writes. -/
structure TxInfo where
  text : TxField → CharArray maxTokenStringLength
  initTime : Int
  state : TxState

namespace TxInfo

def zero : TxInfo := ⟨fun _ => strncpy _ [], 0, .empty⟩

/-- What `strcmp` reads at `tx_ip`: the arrays lie one after another, and the string goes on into the next one when
an array holds no NUL.  Nothing writes `zone_id`, so it ends there at the latest. -/
def txIp (t : TxInfo) : List Char := cstr (TxField.all.flatMap fun f => (t.text f).val)

def setText (t : TxInfo) (f : TxField) (s : List Char) : TxInfo :=
  { t with text := Function.update t.text f (strncpy _ s) }

@[simp] theorem setText_self (t : TxInfo) (f : TxField) (s : List Char) : (t.setText f s).text f = strncpy _ s :=
  Function.update_self ..

theorem setText_of_ne (t : TxInfo) {f f' : TxField} (h : f' ≠ f) (s : List Char) :
    (t.setText f s).text f' = t.text f' :=
  Function.update_of_ne h ..

/-- The ten arrays that `recvdata_copy` fills hold a configuration. -/
def Holds (t : TxInfo) (g : TxField → List Char) : Prop := ∀ f, f ≠ .zoneId → t.text f = strncpy _ (g f)

instance (t : TxInfo) (g : TxField → List Char) : Decidable (t.Holds g) :=
  decidable_of_iff (∀ f ∈ TxField.all, f ≠ .zoneId → t.text f = strncpy _ (g f))
    ⟨fun h f => h f (by cases f <;> decide), fun h f _ => h f⟩

end TxInfo

/-! ### Requests -/

/-- A parsed body, `json::value` of the C++ REST SDK.  Nothing reads the payloads of numbers, booleans and arrays. -/
inductive JsonValue where
  | null
  | number
  | boolean
  | string (s : List Char)
  | array
  | object (members : List (String × JsonValue))

inductive JsonException where
  | notAnObject
  | notAString
deriving DecidableEq, Repr

namespace JsonValue

/-- `value::operator[](const utility::string_t&)`, as the SDK documents it: a null value becomes an object, a member
that is missing is inserted as null, and every other value throws a `json_exception`. -/
def index : JsonValue → String → Except JsonException JsonValue
  | null, _ => .ok .null
  | object members, key => .ok ((members.lookup key).getD .null)
  | _, _ => .error .notAnObject

/-- `value::as_string()`, which throws a `json_exception` when the value is not a string. -/
def asString : JsonValue → Except JsonException (List Char)
  | string s => .ok s
  | _ => .error .notAString

/-- `obj["set-tx-configuration"][key].as_string()` -/
def member (obj : JsonValue) (key : String) : Except JsonException (List Char) :=
  match obj.index "set-tx-configuration" with
  | .error e => .error e
  | .ok conf => match conf.index key with
    | .error e => .error e
    | .ok v => v.asString

end JsonValue

/-- The members `recvdata_copy` copies, in its order, each with its array. -/
def recvKeys : List (String × TxField) :=
  [("tx-ip", .txIp), ("port-1", .port1), ("port-2", .port2), ("port-3", .port3), ("port-4", .port4),
    ("port-5", .port5), ("userKey", .userKey), ("subscriptionKey", .subscriptionKey), ("iLOport", .iLOport),
    ("zone", .zone)]

def copyMembers (obj : JsonValue) : List (String × TxField) → TxInfo → TxInfo × Option JsonException
  | [], t => (t, none)
  | (key, f) :: ks, t => match obj.member key with
    | .error e => (t, some e)
    | .ok s => copyMembers obj ks (t.setText f s)

/-- `recvdata_copy`, on the static record `tx_received`. -/
def recvdataCopy (obj : JsonValue) (txReceived : TxInfo) : TxInfo × Option JsonException :=
  copyMembers obj recvKeys txReceived

/-! ### The configuration a request posts -/

def members (obj : JsonValue) : List (String × TxField) → Except JsonException (TxField → List Char)
  | [] => .ok fun _ => []
  | (key, f) :: ks => match obj.member key with
    | .error e => .error e
    | .ok s => match members obj ks with
      | .error e => .error e
      | .ok g => .ok (Function.update g f s)

/-- The configuration a request posts, or the exception of its first member that cannot be read. -/
def posted (obj : JsonValue) : Except JsonException (TxField → List Char) := members obj recvKeys

private theorem copyMembers_ok {obj : JsonValue} {ks : List (String × TxField)} {g : TxField → List Char}
    (h : members obj ks = .ok g) (hks : (ks.map Prod.snd).Nodup) (t : TxInfo) :
    ∃ t', copyMembers obj ks t = (t', none) ∧
      ∀ f, t'.text f = if f ∈ ks.map Prod.snd then strncpy _ (g f) else t.text f := by
  induction ks generalizing g t with
  | nil => exact ⟨t, rfl, fun f => by simp⟩
  | cons k ks ih =>
    obtain ⟨key, f⟩ := k
    obtain ⟨hf, hks⟩ := List.nodup_cons.1 hks
    unfold members at h
    split at h
    · cases h
    rename_i s hs
    split at h
    · cases h
    rename_i g' hg'
    obtain rfl : Function.update g' f s = g := by simpa using h
    obtain ⟨t', ht', htext⟩ := ih hg' hks (t.setText f s)
    refine ⟨t', by simpa only [copyMembers, hs] using ht', fun f' => ?_⟩
    rw [htext]
    by_cases hff : f' = f
    · subst hff
      have hf' : f' ∉ ks.map Prod.snd := hf
      simp [hf']
    · have hmem : f' ∈ ((key, f) :: ks).map Prod.snd ↔ f' ∈ ks.map Prod.snd := by
        rw [List.map_cons, List.mem_cons, or_iff_right hff]
      rw [if_congr hmem rfl rfl]
      simp [hff, TxInfo.setText_of_ne]

private theorem copyMembers_error {obj : JsonValue} {ks : List (String × TxField)} {e : JsonException}
    (h : members obj ks = .error e) (t : TxInfo) :
    ∃ t', copyMembers obj ks t = (t', some e) := by
  induction ks generalizing t with
  | nil => cases h
  | cons k ks ih =>
    obtain ⟨key, f⟩ := k
    unfold members at h
    split at h
    · rename_i e' hs
      obtain rfl : e' = e := by simpa using h
      exact ⟨t, by simp only [copyMembers, hs]⟩
    · rename_i s hs
      split at h
      · rename_i e' hg'
        obtain rfl : e' = e := by simpa using h
        obtain ⟨t', ht'⟩ := ih hg' (t.setText f s)
        exact ⟨t', by simpa only [copyMembers, hs] using ht'⟩
      · cases h

/-- A copy that returns replaces the ten arrays as a whole. -/
theorem recvdataCopy_ok {obj : JsonValue} {g : TxField → List Char} (h : posted obj = .ok g) (t : TxInfo) :
    ∃ t', recvdataCopy obj t = (t', none) ∧ t'.Holds g := by
  have hnodup : (recvKeys.map Prod.snd).Nodup := by decide
  obtain ⟨t', ht', htext⟩ := copyMembers_ok h hnodup t
  refine ⟨t', ht', fun f hf => ?_⟩
  have hmem : f ∈ recvKeys.map Prod.snd := by
    cases f <;> first | exact absurd rfl hf | decide
  rw [htext, if_pos hmem]

/-- The copy throws exactly when the request posts no configuration. -/
theorem recvdataCopy_error {obj : JsonValue} {e : JsonException} (h : posted obj = .error e) (t : TxInfo) :
    ∃ t', recvdataCopy obj t = (t', some e) :=
  copyMembers_error h t

/-- The body of a request with the `tx-ip` and, in every other member, one string. -/
def requestBody (txIp other : String) : JsonValue :=
  .object [("set-tx-configuration", .object (("tx-ip", .string txIp.toList) ::
    recvKeys.tail.map fun k => (k.1, .string other.toList)))]

/-- A record that holds a configuration with a short `tx-ip` is compared by that string. -/
theorem TxInfo.Holds.txIp {t : TxInfo} {g : TxField → List Char} (h : t.Holds g)
    (hshort : (cstr (g .txIp)).length < maxTokenStringLength) : t.txIp = cstr (g .txIp) := by
  have htext : t.text .txIp = strncpy _ (g .txIp) := h .txIp (by decide)
  rw [TxInfo.txIp, TxField.all, List.flatMap_cons, htext, cstr_strncpy_append hshort]

end Cloudein.Rest
