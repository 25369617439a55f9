/-!
# Locations

Where a file can be, and how a name says it. A location counts from the working directory, from a
directory some levels above it, or from the root. A name is a route: pieces between slashes, one
step each. An empty piece and a single dot stay, two dots go up, and anything else goes down.
-/
namespace LS8.CommandLine

inductive Anchor where
  | root
  /-- So many levels above the working directory. -/
  | above (levels : Nat)
  deriving DecidableEq, Repr

structure Location where
  anchor : Anchor := .above 0
  /-- The way down from the anchor, the last name first. -/
  names : List String := []
  deriving DecidableEq, Repr

namespace Location

/-- The root is above itself. -/
def parent : Location → Location
  | ⟨anchor, _ :: names⟩ => ⟨anchor, names⟩
  | ⟨.above levels, []⟩ => ⟨.above (levels + 1), []⟩
  | ⟨.root, []⟩ => ⟨.root, []⟩

def step (place : Location) (piece : String) : Location :=
  if piece = "." then place
  else if piece = ".." then place.parent
  else ⟨place.anchor, piece :: place.names⟩

/-- The directories between the anchor and a location, the nearest first. -/
def enclosing (place : Location) : List Location :=
  go place.names
where
  go : List String → List Location
    | [] => []
    | _ :: names => ⟨place.anchor, names⟩ :: go names

/-- The name of a location below the working directory. -/
def name? (place : Location) : Option String :=
  if place.anchor = .above 0 then some ("/".intercalate place.names.reverse) else none

end Location

/-- The pieces between slashes. -/
def components : List Char → List (List Char)
  | [] => [[]]
  | '/' :: rest => [] :: components rest
  | c :: rest =>
    match components rest with
    | [] => [[c]]
    | piece :: more => (c :: piece) :: more

structure Route where
  start : Location
  /-- The pieces that are not empty: an empty one stays where the piece before it led. -/
  steps : List String
  /-- A name that ends in a slash is one of a directory. -/
  closed : Bool
  deriving DecidableEq, Repr

namespace Route

/-- The empty name leads nowhere. -/
def ofName? (name : String) : Option Route :=
  if name = "" then none
  else
    some {
      start := if name.toList.head? = some '/' then { anchor := .root } else {}
      steps := ((components name.toList).filter (· ≠ [])).map String.ofList
      closed := name.toList.getLast? = some '/' }

/-- Where a route leads if everything on the way is a directory. -/
def target (route : Route) : Location := route.steps.foldl Location.step route.start

end Route
end LS8.CommandLine
