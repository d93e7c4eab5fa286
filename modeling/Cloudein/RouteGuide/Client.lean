import Cloudein.RouteGuide.Database
import Cloudein.RouteGuide.RecordRoute

/-!
# The random trip of the client

`RecordRoute` of the client visits ten features drawn at random from the list that the constructor loaded.  The upper
bound of the draw is the size of the list less one, computed in `size_t` and narrowed to `int`, so it is negative for
an empty list; and the list is empty when the file does not open, when it is no list of records, and when it has none.
-/

namespace Cloudein.RouteGuide

open Spaces Stoi

/-! ### Loading the database -/

/-- What stands behind the first occurrence of a text. -/
def afterFirst (text : List Char) : List Char → Option (List Char)
  | [] => if text = [] then some [] else none
  | c :: s => if text <+: c :: s then some ((c :: s).drop text.length) else afterFirst text s

/-- The path that `GetDbFileContent` opens. -/
def dbPath : List (List Char) → List Char
  | _ :: argv1 :: _ => match afterFirst "--db_path".toList argv1 with
    | some (c :: path) => if c = ' ' ∨ c = '=' then path else []
    | _ => []
  | _ => "route_guide_db.json".toList

example : dbPath ["client".toList, "--db_path=places.json".toList] = "places.json".toList := by decide

/-- `GetDbFileContent`, with the files that can be opened. -/
def getDbFileContent (files : List Char → Option (List Char)) (argv : List (List Char)) : List Char :=
  (files (dbPath argv)).getD []

structure RouteGuideClient where
  featureList : List Feature
deriving DecidableEq

/-- The constructor, `none` when `ParseDb` throws. -/
def RouteGuideClient.new (db : List Char) : Option RouteGuideClient :=
  match parseDb db with
  | some ⟨featureList, none⟩ => some ⟨featureList⟩
  | _ => none

/-! ### Random numbers -/

inductive ClientFault where
  /-- A distribution is built with its bounds the wrong way round. -/
  | emptyRange
  | indexOutOfRange
deriving DecidableEq, Repr

/-- `std::uniform_int_distribution<int>`, whose constructor requires its bounds to be in order. -/
structure UniformIntDistribution where
  a : Int32
  b : Int32
  le : a ≤ b

def uniformIntDistribution (a b : Int32) : Except ClientFault UniformIntDistribution :=
  if h : a ≤ b then .ok ⟨a, b, h⟩ else .error .emptyRange

/-- A generator with states `σ`: every draw lies within the bounds of its distribution. -/
structure Generator (σ : Type) where
  draw : UniformIntDistribution → σ → Int32 × σ
  within : ∀ u s, u.a ≤ (draw u s).1 ∧ (draw u s).1 ≤ u.b

/-! ### The trip -/

/-- `feature_list_.size() - 1` as an `int`. -/
def lastFeature (features : List Feature) : Int32 := (UInt64.ofNat features.length - 1).toUInt32.toInt32

/-- An `int` as the index of a vector. -/
def asIndex (x : Int32) : Nat := x.toInt64.toUInt64.toNat

def kPoints : Nat := 10

namespace RouteGuideClient

variable {σ : Type}

/-- The loop of `RecordRoute` with `n` rounds to go; the `i`-th `Write` succeeds when `writes i` does.  The points are
those handed to `Write`. -/
def visit (c : RouteGuideClient) (feature delay : UniformIntDistribution) (g : Generator σ) (writes : Nat → Bool) :
    Nat → Nat → σ → Except ClientFault (List Point)
  | 0, _, _ => .ok []
  | n + 1, i, s =>
    let (index, s) := g.draw feature s
    match c.featureList[asIndex index]? with
    | none => .error .indexOutOfRange
    | some f =>
      if writes i then (c.visit feature delay g writes n (i + 1) (g.draw delay s).2).map (f.location :: ·)
      else .ok [f.location]

/-- `RecordRoute` of the client, from a seeded generator. -/
def recordRoute (c : RouteGuideClient) (g : Generator σ) (seed : σ) (writes : Nat → Bool) :
    Except ClientFault (List Point) :=
  match uniformIntDistribution 0 (lastFeature c.featureList), uniformIntDistribution 500 1500 with
  | .ok feature, .ok delay => c.visit feature delay g writes kPoints 0 seed
  | .error e, _ => .error e
  | _, .error e => .error e

/-- Whatever is drawn and written, the bounds of the distributions are in order and every index is within the list. -/
def InBounds (c : RouteGuideClient) : Prop :=
  ∀ (σ : Type) (g : Generator σ) (seed : σ) (writes : Nat → Bool), ∃ points, c.recordRoute g seed writes = .ok points

end RouteGuideClient

/-! ### The bounds -/

private theorem toInt_lastFeature (features : List Feature) :
    (lastFeature features).toInt = ((features.length : Int) - 1).bmod (2 ^ 32) := by
  simp [lastFeature]

/-- The range is not empty exactly when the size of the list is between 1 and `2 ^ 31` modulo `2 ^ 32`. -/
theorem zero_le_lastFeature_iff {features : List Feature} :
    0 ≤ lastFeature features ↔ 1 ≤ features.length % 2 ^ 32 ∧ features.length % 2 ^ 32 ≤ 2 ^ 31 := by
  have hzero : (0 : Int32).toInt = 0 := rfl
  rw [Int32.le_iff_toInt_le, toInt_lastFeature, hzero, Int.bmod_def]
  omega

private theorem asIndex_eq {x : Int32} (h : 0 ≤ x) : asIndex x = x.toInt.toNat := by
  have hlong : 0 ≤ x.toInt64 := by
    rw [Int64.le_iff_toInt_le, Int32.toInt_toInt64]
    exact Int32.le_iff_toInt_le.1 h
  rw [asIndex, Int64.toNat_toUInt64_of_le hlong, Int64.toNatClampNeg, Int32.toInt_toInt64]

/-- A draw within the range is an index of the list. -/
theorem asIndex_lt {features : List Feature} {x : Int32} (h0 : 0 ≤ x) (hx : x ≤ lastFeature features) :
    asIndex x < features.length := by
  have hlast := Int32.le_iff_toInt_le.1 hx
  have hnonneg : 0 ≤ x.toInt := Int32.le_iff_toInt_le.1 h0
  rw [toInt_lastFeature, Int.bmod_def] at hlast
  rw [asIndex_eq h0]
  omega

namespace RouteGuideClient

variable {c : RouteGuideClient} {σ : Type}

private theorem visit_ok (h : 0 ≤ lastFeature c.featureList) (delay : UniformIntDistribution) (g : Generator σ)
    (writes : Nat → Bool) (n i : Nat) (s : σ) :
    ∃ points, c.visit ⟨0, lastFeature c.featureList, h⟩ delay g writes n i s = .ok points := by
  induction n generalizing i s with
  | zero => exact ⟨[], rfl⟩
  | succ n ih =>
    obtain ⟨hlow, hhigh⟩ := g.within ⟨0, lastFeature c.featureList, h⟩ s
    have hlt := asIndex_lt hlow hhigh
    simp only [visit]
    rw [List.getElem?_eq_getElem hlt]
    cases writes i with
    | false => exact ⟨_, rfl⟩
    | true =>
      obtain ⟨points, hpoints⟩ := ih (i + 1) (g.draw delay (g.draw ⟨0, lastFeature c.featureList, h⟩ s).2).2
      simp only [if_true, hpoints]
      exact ⟨_, rfl⟩

/-- The generator that draws the least number. -/
def leastDraws : Generator Unit := ⟨fun u s => (u.a, s), fun u _ => ⟨Int32.le_refl _, u.le⟩⟩

theorem inBounds_iff : c.InBounds ↔ 0 ≤ lastFeature c.featureList := by
  constructor
  · intro h
    obtain ⟨points, hpoints⟩ := h Unit leastDraws () fun _ => true
    -- With the bounds the wrong way round there is no distribution to draw from.
    by_contra hneg
    simp [recordRoute, uniformIntDistribution, hneg] at hpoints
  · intro h σ g seed writes
    have hfeature : uniformIntDistribution 0 (lastFeature c.featureList) = .ok ⟨0, lastFeature c.featureList, h⟩ :=
      dif_pos h
    have hdelay : uniformIntDistribution 500 1500 = .ok ⟨500, 1500, by decide⟩ := rfl
    rw [recordRoute, hfeature, hdelay]
    exact visit_ok h _ g writes kPoints 0 seed

end RouteGuideClient

/-- The text is a list of records, and their number modulo `2 ^ 32` is between 1 and `2 ^ 31`. -/
def LoadsFeatures (db : List Char) : Prop :=
  ∃ rest rs, strip isSpace db = '[' :: rest ∧ Records rest rs ∧
    1 ≤ rs.length % 2 ^ 32 ∧ rs.length % 2 ^ 32 ≤ 2 ^ 31

private theorem parseDb_of_new {db : List Char} {c : RouteGuideClient} (h : RouteGuideClient.new db = some c) :
    parseDb db = some ⟨c.featureList, none⟩ := by
  unfold RouteGuideClient.new at h
  split at h
  · rename_i heq
    rw [heq, ← Option.some.inj h]
  · cases h

/-- For every database with which the client can be started, `RecordRoute` keeps to the list and to the precondition
of the distribution if and only if the database loads features. -/
theorem recordRoute_inBounds_iff (files : List Char → Option (List Char)) (argv : List (List Char))
    {c : RouteGuideClient} (h : RouteGuideClient.new (getDbFileContent files argv) = some c) :
    c.InBounds ↔ LoadsFeatures (getDbFileContent files argv) := by
  have hparse := parseDb_of_new h
  rw [RouteGuideClient.inBounds_iff, zero_le_lastFeature_iff]
  constructor
  · rintro ⟨hlow, hhigh⟩
    have hne : c.featureList ≠ [] := by
      intro hnil
      rw [hnil] at hlow
      cases hlow
    obtain ⟨rest, rs, hrest, hrs, hfeatures⟩ := records_of_parseDb hparse hne
    rw [hfeatures, List.length_map] at hlow hhigh
    exact ⟨rest, rs, hrest, hrs, hlow, hhigh⟩
  · rintro ⟨rest, rs, hrest, hrs, hlow, hhigh⟩
    have hrecords := parseDb_records hrest hrs
    rw [hparse, Option.some.injEq, Outcome.mk.injEq] at hrecords
    rw [hrecords.1, List.length_map]
    exact ⟨hlow, hhigh⟩

/-- Two places in the file of the default path, the second without a name, and no other file. -/
def twoPlacesFile (path : List Char) : Option (List Char) :=
  if path = "route_guide_db.json".toList then
    some ("[\x7b\"location\": \x7b\"latitude\": 1, \"longitude\": 2\x7d, \"name\": \"A\"\x7d,".toList ++
      "\x7b\"location\": \x7b\"latitude\": 3, \"longitude\": -4\x7d, \"name\": \"\"\x7d]".toList)
  else none

theorem recordRoute_inBounds_twoPlaces : RouteGuideClient.InBounds ⟨[⟨1, 2, "A".toList⟩, ⟨3, -4, []⟩]⟩ := by
  have hnew : RouteGuideClient.new (getDbFileContent twoPlacesFile ["client".toList]) =
      some ⟨[⟨1, 2, "A".toList⟩, ⟨3, -4, []⟩]⟩ := by
    decide +kernel
  obtain ⟨rest, rs, hrest, hrs, hfeatures⟩ := records_of_parseDb (parseDb_of_new hnew) (by simp)
  have htwo : rs.length = 2 := by simpa using (congrArg List.length hfeatures).symm
  exact (recordRoute_inBounds_iff twoPlacesFile _ hnew).2 ⟨rest, rs, hrest, hrs, by rw [htwo]; decide⟩

/-- Without the file the constructor returns, and the range of the draw is empty. -/
theorem missingFile_emptyRange :
    ¬ ∀ files argv c, RouteGuideClient.new (getDbFileContent files argv) = some c → c.InBounds := by
  intro h
  have hnew : RouteGuideClient.new (getDbFileContent (fun _ => none) ["client".toList]) = some ⟨[]⟩ := by
    decide +kernel
  have hrange := RouteGuideClient.inBounds_iff.1 (h _ _ _ hnew)
  exact absurd hrange (by decide)

end Cloudein.RouteGuide
