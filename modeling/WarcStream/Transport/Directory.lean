import WarcStream.Text.Utf8
import WarcStream.Transport.Source
/-!
# Directories

A working directory is a list of names with what they stand for: the octets of
a file, or a directory. A path is walked name by name; a blank name and a
single dot stay, two dots go up. A directory can be opened and fails when it
is read. Nothing is known of what lies outside the working directory but the
directories above it.
-/

namespace WarcStream.Transport

/-- A working directory. None of octets is a directory. -/
structure Directory where
  entries : List (String × Option Bytes)

namespace Directory

/-- The longest name, in octets. -/
def nameLimit : Nat := 255

/-- The names of a path, cut at slashes. -/
def namesOf : List Char → List (List Char)
  | [] => [[]]
  | '/' :: rest => [] :: namesOf rest
  | c :: rest =>
    match namesOf rest with
    | name :: names => (c :: name) :: names
    | [] => [[c]]

/-- A name that stays where it is. -/
def isHere (name : List Char) : Bool := name = [] || name = ['.']

/-- The names of an entry. -/
def plainNames (path : String) : List (List Char) :=
  (namesOf path.toList).filter fun name => !isHere name

/-- What stands at a place below the directory, if anything does. The directories on the way to an
entry are there with it. -/
def at? (d : Directory) (place : List (List Char)) : Option (Option Bytes) :=
  match d.entries.find? fun entry => plainNames entry.1 = place with
  | some (_, content) => some content
  | none =>
    if d.entries.any fun entry => place.isPrefixOf (plainNames entry.1) then some none else none

/-- A directory that has been opened: its first read fails. -/
def opened : Source := ⟨[.fault .isADirectory], 0⟩

/-- Walks the rest of a path from a place above the working directory. -/
def walkOutside (names : List (List Char)) : Except Fault Source :=
  if names.all fun name => isHere name || name = ['.', '.'] then .ok opened
  else .error .noSuchFile

/-- Walks the rest of a path from a place that is a directory. -/
def walk (d : Directory) (place : List (List Char)) : List (List Char) → Except Fault Source
  | [] => .ok opened
  | name :: rest =>
    if isHere name then d.walk place rest
    else if name = ['.', '.'] then
      if place.isEmpty then walkOutside rest else d.walk place.dropLast rest
    else if nameLimit < (Text.bytes (String.ofList name)).length then .error .nameTooLong
    else
      match d.at? (place ++ [name]) with
      | none => .error .noSuchFile
      | some none => d.walk (place ++ [name]) rest
      | some (some octets) => if rest.isEmpty then .ok (.ofBytes octets) else .error .notADirectory

/-- Opens the file at a path. -/
def openPath (d : Directory) (path : String) : Except Fault Source :=
  match path.toList with
  | [] => .error .noSuchFile
  | '/' :: rest => walkOutside (namesOf rest)
  | cs => d.walk [] (namesOf cs)

end Directory

end WarcStream.Transport
