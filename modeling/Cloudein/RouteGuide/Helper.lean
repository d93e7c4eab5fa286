import Cloudein.Lib.Spaces
import Cloudein.Lib.Stoi

/-!
# The parser of the route database

`ParseDb` removes the white space of a text and reads records off it with a cursor.  `Match` compares the text at the
cursor with a literal and advances the cursor by the length of the literal, also when they differ; the coordinates and
the name are scanned by loops that stop at the end of the text or at a delimiter.  A literal that does not match makes
the parser fail and `ParseDb` clear the list; `std::stol` throws, and nothing catches it.  The server and the client
have the same copy of this code.
-/

namespace Cloudein.RouteGuide

open Spaces Stoi

/-- The fields of a `Feature` that are set and read. -/
structure Feature where
  latitude : Int32
  longitude : Int32
  name : List Char
deriving DecidableEq

/-- `Feature()`. -/
def Feature.empty : Feature := ⟨0, 0, []⟩

/-- How the parser can go wrong other than by failing: `substr` beyond the end throws, so does `stol`, and reading or
scanning beyond the terminating NUL is undefined. -/
inductive ParseFault where
  | substrOutOfRange
  | indexOutOfRange
  | scanOutOfRange
  | conv (e : ConvError)
deriving DecidableEq, Repr

structure Parser where
  failed : Bool
  db : List Char
  current : Nat

def locationKey : List Char := "\"location\":".toList
def latitudeKey : List Char := "\"latitude\":".toList
def longitudeKey : List Char := "\"longitude\":".toList
def nameKey : List Char := "\"name\":".toList

/-- The loop of `ReadLong`, on the text from the cursor on. -/
def skipLong : List Char → Nat → Nat
  | [], i => i
  | c :: rest, i => if c ≠ ',' ∧ c ≠ '\x7d' then skipLong rest (i + 1) else i

/-- The loop over the name, which also takes the quote it stops at. -/
def skipName : List Char → Nat → Nat
  | [], i => i
  | c :: rest, i => if c ≠ '"' then skipName rest (i + 1) else i + 1

/-- The result of `TryParseOne` with the parser and the feature as it leaves them, or the exception and the feature.
-/
abbrev TryResult := Except (ParseFault × Feature) (Bool × Parser × Feature)

namespace Parser

def finished (p : Parser) : Bool := decide (p.db.length ≤ p.current)

def substr (pos n : Nat) (p : Parser) : Except ParseFault (List Char) :=
  if p.db.length < pos then .error .substrOutOfRange else .ok ((p.db.drop pos).take n)

/-- `db_[i]`, the NUL at the end included. -/
def index (i : Nat) (p : Parser) : Except ParseFault Char :=
  if p.db.length < i then .error .indexOutOfRange else .ok (p.db.getD i (Char.ofNat 0))

/-- `Match(text)`. -/
def accept (text : List Char) (p : Parser) : Except ParseFault (Bool × Parser) :=
  match p.substr p.current text.length with
  | .error e => .error e
  | .ok s => .ok (s = text, { p with current := p.current + text.length })

/-- `Match` of one text after another, up to the first that fails. -/
def acceptAll : List (List Char) → Parser → Except ParseFault (Bool × Parser)
  | [], p => .ok (true, p)
  | text :: texts, p => match p.accept text with
    | .error e => .error e
    | .ok (false, p) => .ok (false, p)
    | .ok (true, p) => acceptAll texts p

/-- A scanning loop from the cursor on: one that starts beyond the end never meets its end. -/
def scan (loop : List Char → Nat → Nat) (p : Parser) : Except ParseFault Parser :=
  if p.db.length < p.current then .error .scanOutOfRange
  else .ok { p with current := loop (p.db.drop p.current) p.current }

def readLong (p : Parser) : Except ParseFault (Int × Parser) :=
  match p.scan skipLong with
  | .error e => .error e
  | .ok q => match q.substr p.current (q.current - p.current) with
    | .error e => .error e
    | .ok s => match stol s with
      | .error e => .error (.conv e)
      | .ok v => .ok (v, q)

/-- `return SetFailedAndReturnFalse()`. -/
def setFailedAndReturnFalse (p : Parser) (feature : Feature) : TryResult :=
  .ok (false, { p with failed := true }, feature)

/-- `if (!Match(..) || !Match(..)) return SetFailedAndReturnFalse();` and what comes after it. -/
def expect (texts : List (List Char)) (p : Parser) (feature : Feature) (next : Parser → TryResult) : TryResult :=
  match p.acceptAll texts with
  | .error e => .error (e, feature)
  | .ok (false, p) => p.setFailedAndReturnFalse feature
  | .ok (true, p) => next p

/-- `ReadLong(&temp);` and what comes after it. -/
def thenReadLong (p : Parser) (feature : Feature) (next : Int → Parser → TryResult) : TryResult :=
  match p.readLong with
  | .error e => .error (e, feature)
  | .ok (v, p) => next v p

/-- The end of `TryParseOne`, after the name: the next record follows, or the text ends here. -/
def closeRecord (p : Parser) (feature : Feature) : TryResult :=
  match p.accept "\x7d,".toList with
  | .error e => .error (e, feature)
  | .ok (true, p) => .ok (true, p, feature)
  | .ok (false, p) => match p.index (p.current - 1) with
    | .error e => .error (e, feature)
    | .ok c =>
      if c = ']' ∧ p.current = p.db.length then .ok (true, p, feature)
      else p.setFailedAndReturnFalse feature

/-- `TryParseOne` from the first character of the name on. -/
def readName (p : Parser) (feature : Feature) : TryResult :=
  match p.scan skipName with
  | .error e => .error (e, feature)
  | .ok q =>
    if q.current = q.db.length then q.setFailedAndReturnFalse feature
    else match q.substr p.current (q.current - p.current - 1) with
      | .error e => .error (e, feature)
      | .ok name => q.closeRecord { feature with name := name }

/-- `TryParseOne` from the key of the name on. -/
def parseName (p : Parser) (feature : Feature) : TryResult :=
  p.expect ["\x7d,".toList, nameKey, "\"".toList] feature fun p =>
  p.readName feature

/-- `TryParseOne` from the key of the longitude on. -/
def parseLongitude (p : Parser) (feature : Feature) : TryResult :=
  p.expect [",".toList, longitudeKey] feature fun p =>
  p.thenReadLong feature fun lon p =>
  p.parseName { feature with longitude := Int32.ofInt lon }

def tryParseOne (p : Parser) (feature : Feature) : TryResult :=
  if p.failed || p.finished then p.setFailedAndReturnFalse feature
  else
    p.expect ["\x7b".toList, locationKey, "\x7b".toList, latitudeKey] feature fun p =>
    p.thenReadLong feature fun lat p =>
    p.parseLongitude { feature with latitude := Int32.ofInt lat }

/-- The constructor. -/
def new (db : List Char) : Except ParseFault Parser :=
  let p : Parser := ⟨false, strip isSpace db, 0⟩
  match p.accept "[".toList with
  | .error e => .error e
  | .ok (eq, p) => .ok { p with failed := !eq }

end Parser

/-- What `ParseDb` leaves in `*feature_list`, and the exception it exits by if it does. -/
structure Outcome where
  featureList : List Feature
  thrown : Option ParseFault
deriving DecidableEq

/-- The loop of `ParseDb`, `none` when the fuel does not suffice. -/
def parseLoop : Nat → Parser → List Feature → Option Outcome
  | 0, _, _ => none
  | n + 1, p, featureList =>
    if p.finished then some ⟨featureList, none⟩
    else match p.tryParseOne .empty with
      | .error (e, feature) => some ⟨featureList ++ [feature], some e⟩
      | .ok (false, _, _) => some ⟨[], none⟩
      | .ok (true, p, feature) => parseLoop n p (featureList ++ [feature])

/-- `ParseDb` with fuel for as many records as the text has characters. -/
def parseDb (db : List Char) : Option Outcome :=
  match Parser.new (strip isSpace db) with
  | .error e => some ⟨[], some e⟩
  | .ok p => parseLoop (db.length + 1) p []

end Cloudein.RouteGuide
