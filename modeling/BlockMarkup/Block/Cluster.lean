import BlockMarkup.Line

namespace BlockMarkup

structure PropertyLine where
  line : Nat
  indent : Text
  key : Text
  value : Text
deriving DecidableEq

-- The property lines at the start of lines that are numbered from `number` on, blank lines among
-- them skipped.
def clusterFrom (number : Nat) : List Text → List PropertyLine
  | [] => []
  | line :: rest =>
    match Line.classify line with
    | .property indent key value => ⟨number, indent, key, value⟩ :: clusterFrom (number + 1) rest
    | .blank => clusterFrom (number + 1) rest
    | _ => []

def propertyCluster (lines : List Text) (start stop : Nat) : List PropertyLine :=
  clusterFrom (start + 1) ((lines.take (stop - 1)).drop start)

end BlockMarkup
