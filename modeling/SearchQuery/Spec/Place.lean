import SearchQuery.Json.Layout
import SearchQuery.Spec.Schema

/-!
The places of a spec where records are read, and changes to what stands at one of them. A place
is reached from the whole spec through records, by object or by array, and through lists; where a
list may be a single record it is reached through that. A change to a text is one to its layout,
at a place that is known from what the text says.
-/
namespace SearchQuery

def ClauseSpec.ofDatum? (inList : Bool) : Datum → Option ClauseSpec :=
  ClauseSpec.readWith? Spec.ofDatum? inList

inductive Place where
  | spec
  | sorts
  | sort
  | raws
  | raw
  | clauses
  | clause (inList : Bool)
deriving Repr, DecidableEq

namespace Place

def Reading : Place → Type
  | .spec => Spec
  | .sorts => List SortSpec
  | .sort => SortSpec
  | .raws => List (String × Value)
  | .raw => String × Value
  | .clauses => List ClauseSpec
  | .clause _ => ClauseSpec

def read : (place : Place) → Datum → Option place.Reading
  | .spec => Spec.ofDatum?
  | .sorts => Datum.oneOrMany? SortSpec.read? SortSpec.read?
  | .sort => SortSpec.read?
  | .raws => Datum.list? readRawOption?
  | .raw => readRawOption?
  | .clauses => Datum.oneOrMany? (ClauseSpec.ofDatum? false) (ClauseSpec.ofDatum? true)
  | .clause inList => ClauseSpec.ofDatum? inList

def isRecord : Place → Bool
  | .spec | .sort | .raw | .clause _ => true
  | .sorts | .raws | .clauses => false

def keys : Place → List String
  | .spec => Spec.schemaKeys
  | .sort => SortSpec.schemaKeys
  | .raw => rawOptionKeys
  | .clause _ => ClauseSpec.schemaKeys
  | .sorts | .raws | .clauses => []

def fields? (place : Place) : Datum → Option (List (String × Datum)) :=
  Datum.record? place.keys (place = .spec)

def part? (place : Place) (key : String) : Option Place :=
  match place with
  | .spec => [("sort", .sorts), ("raw", .raws), ("clause", .clauses)].lookup key
  | .clause _ => [("nested", .spec)].lookup key
  | _ => none

/-- The place of a record that may stand where a list may stand. -/
def alone? : Place → Option Place
  | .sorts => some .sort
  | .clauses => some (.clause false)
  | _ => none

def item? : Place → Option Place
  | .sorts => some .sort
  | .raws => some .raw
  | .clauses => some (.clause true)
  | _ => none

end Place

section Changes

open Json

variable (Change : Place → Datum → Datum → Prop)

/-- Whether a datum at a place differs from another in one change to a part of it. -/
inductive Datum.Changed : Place → Datum → Datum → Prop
  | here {place : Place} {before after : Datum} : Change place before after →
      Changed place before after
  | alone {place one : Place} {before after : Datum} : place.alone? = some one →
      (one.read before).isSome → Changed one before after → Changed place before after
  | item {place one : Place} (front back : List Datum) {before after : Datum} :
      place.item? = some one →
      (Datum.list? one.read (.array (front ++ before :: back))).isSome →
      Changed one before after →
      Changed place (.array (front ++ before :: back)) (.array (front ++ after :: back))
  | entry {place part : Place} (key : String) (front back : List (String × Datum))
      {before after : Datum} : place.part? key = some part → Changed part before after →
      Changed place (.object (front ++ (key, before) :: back))
        (.object (front ++ (key, after) :: back))
  | field {place part : Place} (key : String) (front back : List Datum) {before after : Datum} :
      place.keys[front.length]? = some key → place.part? key = some part →
      Changed part before after →
      Changed place (.array (front ++ before :: back)) (.array (front ++ after :: back))

variable (Edit : Place → Nat → Layout → Layout → Prop)

/-- Whether a layout at a place differs from another in one edit of a part of it, inside a number
of objects and arrays. -/
inductive Json.Layout.Edited : Place → Nat → Layout → Layout → Prop
  | here {place : Place} {depth : Nat} {before after : Layout} : Edit place depth before after →
      Edited place depth before after
  | alone {place one : Place} {depth : Nat} {before after : Layout} : place.alone? = some one →
      (one.read (before.datum depth)).isSome → Edited one depth before after →
      Edited place depth before after
  | item {place one : Place} {depth : Nat} (blanks : Blanks) (front back : List Layout)
      {before after : Layout} : place.item? = some one →
      (Datum.list? one.read ((array blanks (front ++ before :: back)).datum depth)).isSome →
      Edited one (depth + 1) before after →
      Edited place depth (.array blanks (front ++ before :: back))
        (.array blanks (front ++ after :: back))
  | entry {place part : Place} {depth : Nat} (blanks : Blanks) (token : Token) {key : String}
      (front back : List (Token × Layout)) {before after : Layout} : token.key? = some key →
      place.part? key = some part → Edited part (depth + 1) before after →
      Edited place depth (.object blanks (front ++ (token, before) :: back))
        (.object blanks (front ++ (token, after) :: back))
  | field {place part : Place} {depth : Nat} (blanks : Blanks) {key : String}
      (front back : List Layout) {before after : Layout} :
      place.keys[front.length]? = some key → place.part? key = some part →
      Edited part (depth + 1) before after →
      Edited place depth (.array blanks (front ++ before :: back))
        (.array blanks (front ++ after :: back))

end Changes

end SearchQuery
