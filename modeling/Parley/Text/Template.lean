/-!
# Notices with a place for a name

Each marker in the template, found from left to right and without overlaps, gives way to the name;
the name itself is not searched again.
-/

namespace Parley.Template

def marker : List Char :=
  ['\x7b', 'n', 'p', 'c', '\x7d']

def fill (name : List Char) (template : List Char) : List Char :=
  match template with
  | [] => []
  | c :: rest =>
    if marker.isPrefixOf (c :: rest) then name ++ fill name (rest.drop (marker.length - 1))
    else c :: fill name rest
termination_by template.length

end Parley.Template
