import SearchQuery.Datum

/-!
Reading records from data. A record is an object with some known keys, none of them
repeated, where unknown keys do not matter; or it is an array of the values of the known
keys in their order. The readers for single fields say what a field may be, and whether
it may be missing or null.
-/
namespace SearchQuery.Datum

/-- The fields of a record with known keys. An array has one item for each key; where
that is allowed it may stop early. -/
def record? (keys : List String) (mayStopEarly : Bool) :
    Datum → Option (List (String × Datum))
  | .object entries =>
    if keys.all fun key => (entries.map (·.1)).count key ≤ 1 then some entries else none
  | .array items =>
    if items.length = keys.length ∨ (mayStopEarly ∧ items.length < keys.length) then
      some (keys.zip items)
    else none
  | _ => none

def required {α : Type} (read : Datum → Option α) (field : Option Datum) : Option α :=
  field.bind read

/-- A field that may be missing or null. -/
def optional {α : Type} (read : Datum → Option α) : Option Datum → Option (Option α)
  | none => some none
  | some .null => some none
  | some datum => (read datum).map some

/-- A field that may be missing, but not null. -/
def defaulting {α : Type} (default : α) (read : Datum → Option α) : Option Datum → Option α
  | none => some default
  | some datum => read datum

def text? : Datum → Option String
  | .string s => some s
  | _ => none

def unsigned? : Datum → Option UInt64
  | .int n => if 0 ≤ n ∧ n < Int.pow 2 64 then some (UInt64.ofNat n.toNat) else none
  | _ => none

def signed? : Datum → Option Int64
  | .int n => if -Int.pow 2 63 ≤ n ∧ n < Int.pow 2 63 then some (Int64.ofInt n) else none
  | _ => none

/-- One of some named things: its name, or an object with its name alone over null.
Where that is allowed, an empty object may stand for the null. -/
def choice? {α : Type} (name : α → String) (choices : List α) (mayBeEmpty : Bool) :
    Datum → Option α
  | .string s => choices.find? fun choice => name choice == s
  | .object [(s, .null)] => choices.find? fun choice => name choice == s
  | .object [(s, .object [])] =>
    if mayBeEmpty then choices.find? fun choice => name choice == s else none
  | _ => none

def list? {α : Type} (read : Datum → Option α) : Datum → Option (List α)
  | .array items => items.mapM read
  | _ => none

/-- One thing or a list of things, in a datum without faults. What can be read as one
thing is one. A thing in a list may be read in another way than one that stands alone. -/
def oneOrMany? {α : Type} (one item : Datum → Option α) (datum : Datum) : Option (List α) :=
  if datum.isSound then
    match one datum with
    | some found => some [found]
    | none => list? item datum
  else none

end SearchQuery.Datum
