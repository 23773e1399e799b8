import BlockFS.Error
import BlockFS.Name
import BlockFS.Utf8

/-!
Paths: the names between slashes, each in the form in which names are stored. Empty names are
skipped, so slashes may be repeated and may begin or end a path. NUL ends a stored name, so it may
not stand in a path.
-/

set_option autoImplicit false
set_option relaxedAutoImplicit false

namespace BlockFS

/-- The names on the way from the root to a file. -/
abbrev Path := List Name

namespace Path

/-- The pieces between slashes; there is one more of them than slashes. -/
def pieces : List Char → List (List Char)
  | [] => [[]]
  | c :: rest =>
    if c = '/' then [] :: pieces rest
    else
      match pieces rest with
      | [] => [[c]]
      | piece :: others => (c :: piece) :: others

def segments (text : List Char) : List (List Char) :=
  (pieces text).filter fun piece => !piece.isEmpty

/-- The name that a segment stands for. -/
def component (segment : List Char) : Name := Name.truncate (Utf8.encode segment)

def ofString (text : String) : Except Error Path :=
  if '\x00' ∈ text.toList ∨ maxPathDepth < (segments text.toList).length then
    .error .invalidArgument
  else .ok ((segments text.toList).map component)

end Path

end BlockFS
