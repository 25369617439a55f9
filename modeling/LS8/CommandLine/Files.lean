import LS8.CommandLine.Location

/-!
# Files

The files that a program finds and leaves, by location. A name is followed step by step, and each
step is taken from a directory that is there: `a/../b` needs the directory `a`. A file can be
written wherever its directory exists, under a name that does not end in a slash.

What is written under a name is read back under it (`read_write`).
-/
namespace LS8.CommandLine

/-- Why a file cannot be read or written; `other` is a reason in the system's own words. -/
inductive FileError where
  | notFound | notDirectory | isDirectory | notText
  | other (reason : String)
  deriving DecidableEq, Repr

def FileError.message : FileError → String
  | notFound => "No such file or directory (os error 2)"
  | notDirectory => "Not a directory (os error 20)"
  | isDirectory => "Is a directory (os error 21)"
  | notText => "stream did not contain valid UTF-8"
  | other reason => reason

inductive Entry where
  | text (content : String)
  /-- A file whose content is no text. -/
  | binary
  | directory
  deriving DecidableEq, Repr

structure Files where
  entries : List (Location × Entry) := []
  deriving Repr

namespace Files

/-- Files by name; the directories on the way to each are there too. -/
def ofList (named : List (String × Entry)) : Files :=
  let entries := named.filterMap fun (name, entry) =>
    (Route.ofName? name).map fun route => (route.target, entry)
  ⟨entries ++ entries.flatMap fun (place, _) => place.enclosing.map (·, .directory)⟩

/-- The root, the working directory and all that are above it are always there. -/
def find? (files : Files) (place : Location) : Option Entry :=
  if place.names = [] then some .directory else files.entries.lookup place

def put (files : Files) (place : Location) (entry : Entry) : Files :=
  ⟨(place, entry) :: files.entries.filter (·.1 != place)⟩

theorem find?_put {place : Location} (h : place.names ≠ []) (files : Files) (entry : Entry)
    (other : Location) :
    (files.put place entry).find? other =
      if other = place then some entry else files.find? other := by
  by_cases heq : other = place
  · subst heq
    simp [find?, put, h]
  · have hbeq : (other == place) = false := by simpa using heq
    simp only [find?, put, List.lookup_cons, hbeq, heq, if_false]
    congr 1
    induction files.entries with
    | nil => rfl
    | cons pair rest ih =>
      obtain ⟨key, value⟩ := pair
      by_cases hkey : key = place
      · have : (other == key) = false := by simpa [hkey] using heq
        simp [hkey, List.lookup_cons, hbeq, ih]
      · simp [hkey, List.lookup_cons, ih]

/-- One step, which only a directory allows. -/
def follow (files : Files) (place : Location) (piece : String) : Except FileError Location :=
  match files.find? place with
  | some .directory => .ok (place.step piece)
  | some _ => .error .notDirectory
  | none => .error .notFound

def locate (files : Files) (route : Route) : Except FileError Location :=
  route.steps.foldlM files.follow route.start

def read (files : Files) (name : String) : Except FileError String :=
  match Route.ofName? name with
  | none => .error .notFound
  | some route =>
    match files.locate route with
    | .error e => .error e
    | .ok place =>
      match files.find? place with
      | none => .error .notFound
      | some .directory => .error .isDirectory
      | some (.text content) => if route.closed then .error .notDirectory else .ok content
      | some .binary => .error (if route.closed then .notDirectory else .notText)

def write (files : Files) (name content : String) : Except FileError Files :=
  match Route.ofName? name with
  | none => .error .notFound
  | some route =>
    match files.locate route with
    | .error e => .error e
    | .ok place =>
      if route.closed ∨ files.find? place = some .directory then .error .isDirectory
      else .ok (files.put place (.text content))

/-- A new text does not stand in the way of a route, since it replaces no directory. -/
theorem foldlM_follow_put {files : Files} {place : Location} (hplace : place.names ≠ [])
    (hfound : files.find? place ≠ some .directory) (content : String) (steps : List String)
    {start target : Location} (h : steps.foldlM files.follow start = .ok target) :
    steps.foldlM (files.put place (.text content)).follow start = .ok target := by
  induction steps generalizing start with
  | nil => exact h
  | cons piece rest ih =>
    rw [List.foldlM_cons] at h ⊢
    cases hstep : files.follow start piece with
    | error e =>
      rw [hstep] at h
      cases h
    | ok next =>
      rw [hstep] at h
      have hdirectory : files.find? start = some .directory := by
        unfold follow at hstep
        split at hstep
        · assumption
        · cases hstep
        · cases hstep
      have hne : start ≠ place := by
        intro heq
        exact hfound (heq ▸ hdirectory)
      have hsame : (files.put place (.text content)).follow start piece = .ok next := by
        rw [← hstep]
        simp only [follow, find?_put hplace, hne, if_false]
      rw [hsame]
      exact ih h

theorem read_write {files after : Files} {name content : String}
    (h : files.write name content = .ok after) : after.read name = .ok content := by
  unfold write at h
  split at h
  · cases h
  · rename_i route hroute
    split at h
    · cases h
    · rename_i place hlocate
      split at h
      · cases h
      · rename_i hopen
        obtain ⟨hclosed, hfound⟩ := not_or.mp hopen
        have hplace : place.names ≠ [] := by
          intro hnil
          exact hfound (by simp [find?, hnil])
        obtain rfl := Except.ok.inj h
        have hagain := foldlM_follow_put hplace hfound content route.steps hlocate
        simp only [read, hroute, locate, hagain, find?_put hplace, if_true, hclosed]
        rfl

end Files
end LS8.CommandLine
