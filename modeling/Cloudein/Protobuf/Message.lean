import Cloudein.Protobuf.UnknownFields
import Cloudein.Protobuf.Utf8

/-!
# Generated messages

The code that is generated for a message is the same but for its fields.  A `FieldCodec` is what the functions of a
message do for one field: the `case` of `_InternalParse`, the lines of `_InternalSerialize`, `ByteSizeLong` and
`MergeFrom`; a `MessageCodec` is the list of them, and a `Message` the declared fields with the unknown ones.
-/

namespace Protobuf

/-- What the generated functions of a message with the fields `α` do for one of them; `parse` gets the recursion
budget and stands behind the tag.  What it reads does not depend on the bytes behind. -/
structure FieldCodec (α : Type) where
  number : FieldNumber
  wireType : Nat
  parse : Nat → α → List UInt8 → Option (α × List UInt8)
  serialize : α → List UInt8
  byteSize : α → Nat
  /-- What `MergeFrom` does to the field of its receiver, the first argument. -/
  merge : α → α → α
  parse_append : ∀ {depth a p a' q}, parse depth a p = some (a', q) → ∀ r, parse depth a (p ++ r) = some (a', q ++ r)
  parse_length : ∀ {depth a p a' q}, parse depth a p = some (a', q) → q.length ≤ p.length

def FieldCodec.tag {α : Type} (f : FieldCodec α) : UInt32 := f.number.tag f.wireType

/-- The fields have tags of their own, none of which ends the parse loop. -/
structure MessageCodec (α : Type) where
  default : α
  fields : List (FieldCodec α)
  distinct : (fields.map FieldCodec.tag).Nodup
  wireType_lt : ∀ f ∈ fields, f.wireType < 4

/-- A message: its declared fields, and `_internal_metadata_`. -/
structure Message (α : Type) where
  fields : α
  unknownFields : List UnknownField

namespace MessageCodec

variable {α : Type} (c : MessageCodec α)

def clear : Message α := ⟨c.default, []⟩

/-- `_InternalSerialize`. -/
def serialize (m : Message α) : List UInt8 :=
  c.fields.flatMap (fun f => f.serialize m.fields) ++ serializeUnknown m.unknownFields

/-- `ByteSizeLong`. -/
def byteSize (m : Message α) : Nat :=
  (c.fields.map fun f => f.byteSize m.fields).sum + computeUnknownFieldsSize m.unknownFields

/-- `SerializeToString`, which fails for a message of more than `INT_MAX` bytes. -/
def serializeToString (m : Message α) : Option (List UInt8) :=
  if 2147483647 < c.byteSize m then none else some (c.serialize m)

/-- `MergeFrom`, into `m`. -/
def mergeFrom (m source : Message α) : Message α :=
  ⟨c.fields.foldl (fun a f => f.merge a source.fields) m.fields, m.unknownFields ++ source.unknownFields⟩

/-- The field whose `case` a tag enters.  The source compares the number and then the low byte of the tag, which is
the whole tag for the numbers up to 31. -/
def caseOf (tag : UInt32) : Option (FieldCodec α) :=
  c.fields.find? fun f => f.tag = tag

/-- The loop of `_InternalParse`; a round takes one off the `fuel`. -/
def parseLoop : Nat → Nat → Message α → List UInt8 → Option (Message α × Ending × List UInt8)
  | 0, _, _, _ => none
  | fuel + 1, depth, m, p =>
    if p = [] then some (m, .limit, [])
    else match readTag p with
      | none => none
      | some (tag, q) => match c.caseOf tag with
        | some f => match f.parse depth m.fields q with
          | none => none
          | some (a, r) => parseLoop fuel depth { m with fields := a } r
        | none =>
          if endsLoop tag then some (m, .tag tag, q)
          else match fieldParser (parseGroup (q.length + 1) depth) tag q with
            | none => none
            | some (u, r) => parseLoop fuel depth { m with unknownFields := m.unknownFields ++ [u] } r

/-- `_InternalParse`, with enough fuel for the text. -/
def internalParse (depth : Nat) (m : Message α) (p : List UInt8) : Option (Message α × Ending × List UInt8) :=
  c.parseLoop (p.length + 1) depth m p

/-- `CodedInputStream::GetDefaultRecursionLimit`. -/
def recursionLimit : Nat := 100

/-- `MergeFromString`: the parse must end at the end of the text. -/
def mergeFromString (m : Message α) (p : List UInt8) : Option (Message α) :=
  match c.internalParse recursionLimit m p with
  | some (m, .limit, _) => some m
  | _ => none

/-- `ParseFromString`. -/
def parseFromString (p : List UInt8) : Option (Message α) := c.mergeFromString c.clear p

end MessageCodec

/-! ### The kinds of fields -/

/-- A value of a `uint64` varint as an `int32`: its low 32 bits. -/
def int32OfVarint (value : UInt64) : Int32 := value.toUInt32.toInt32

/-- `WriteVarint32SignExtendedToArray` converts an `int32` to a `uint64`. -/
def varintOfInt32 (value : Int32) : UInt64 := value.toInt64.toUInt64

/-- `Int32Size` and `EnumSize`: ten bytes for a negative value. -/
def int32Size (value : Int32) : Nat := if value < 0 then 10 else varintSize value.toUInt32.toNat

/-- `LengthDelimitedSize`. -/
def lengthDelimitedSize (length : Nat) : Nat := length + varintSize length

section

variable {α : Type} (number : FieldNumber)

/-- A field of a type whose values are varints; a field that is zero is not written. -/
def varintField {β : Type} [DecidableEq β] (zero : β) (ofVarint : UInt64 → β) (toVarint : β → UInt64) (size : β → Nat)
    (get : α → β) (set : β → α → α) : FieldCodec α where
  number := number
  wireType := 0
  parse _ a p := match readVarint64 p with
    | none => none
    | some (value, p) => some (set (ofVarint value) a, p)
  serialize a := if get a = zero then [] else writeTag number.val 0 ++ writeVarint64 (toVarint (get a))
  byteSize a := if get a = zero then 0 else 1 + size (get a)
  merge a source := if get source = zero then a else set (get source) a
  parse_append h r := by
    split at h
    · cases h
    · rename_i value q hvalue
      cases h
      simp only [readVarint64_append hvalue]
  parse_length h := by
    split at h
    · cases h
    · rename_i value q hvalue
      cases h
      exact Nat.le_of_lt (length_of_readVarint64 hvalue)

/-- A field of the type `int32`, or of an enumeration, which is kept as an `int`. -/
def int32Field (get : α → Int32) (set : Int32 → α → α) : FieldCodec α :=
  varintField number 0 int32OfVarint varintOfInt32 int32Size get set

def uint64Field (get : α → UInt64) (set : UInt64 → α → α) : FieldCodec α :=
  varintField number 0 id id (fun value => varintSize value.toNat) get set

/-- A field of the type `string`.  Its bytes are verified when they are read; when they are written, a failed
verification is only logged. -/
def stringField (get : α → List UInt8) (set : List UInt8 → α → α) : FieldCodec α where
  number := number
  wireType := 2
  parse _ a p := match readDelimited p with
    | none => none
    | some (s, p) => if isStructurallyValidUtf8 s then some (set s a, p) else none
  serialize a := if get a = [] then [] else writeTag number.val 2 ++ writeString (get a)
  byteSize a := if get a = [] then 0 else 1 + lengthDelimitedSize (get a).length
  merge a source := if get source = [] then a else set (get source) a
  parse_append h r := by
    split at h
    · cases h
    · rename_i s q hs
      rw [readDelimited_append hs]
      split at h
      · rename_i hutf
        cases h
        exact if_pos hutf
      · cases h
  parse_length h := by
    split at h
    · cases h
    · rename_i s q hs
      have hlt := (readDelimited_length hs).1
      split at h
      · cases h
        omega
      · cases h

/-- A field that is a message.  `ParseMessage` reads it into the message that is there, and the size in front of it is
the one that `ByteSizeLong` left behind (`GetCachedSize`). -/
def messageField {β : Type} (sub : MessageCodec β) (get : α → Option (Message β)) (set : Option (Message β) → α → α) :
    FieldCodec α where
  number := number
  wireType := 2
  parse depth a p := match readDelimited p with
    | none => none
    | some (s, p) => match depth with
      | 0 => none
      | depth + 1 => match sub.internalParse depth ((get a).getD sub.clear) s with
        | some (m, .limit, _) => some (set (some m) a, p)
        | _ => none
  serialize a := match get a with
    | none => []
    | some m => writeTag number.val 2 ++ (Varint.write (sub.byteSize m) ++ sub.serialize m)
  byteSize a := match get a with
    | none => 0
    | some m => 1 + lengthDelimitedSize (sub.byteSize m)
  merge a source := match get source with
    | none => a
    | some m => set (some (sub.mergeFrom ((get a).getD sub.clear) m)) a
  parse_append h r := by
    split at h
    · cases h
    · rename_i s q hs
      simp only [readDelimited_append hs]
      split at h
      · cases h
      · split at h
        · cases h
          rfl
        · cases h
  parse_length h := by
    split at h
    · cases h
    · rename_i s q hs
      have hlt := (readDelimited_length hs).1
      split at h
      · cases h
      · split at h
        · cases h
          omega
        · cases h

end

end Protobuf
