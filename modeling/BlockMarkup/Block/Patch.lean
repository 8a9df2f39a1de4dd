import BlockMarkup.Block.Locate

namespace BlockMarkup

def foldValue (value : Text) : Text :=
  trim (value.map fun c => if c = '\r' || c = '\n' then ' ' else c)

def propertyText (key value : Text) : Text := key ++ [':', ' '] ++ value

namespace Block

def insertedLines (lines : List Text) (after stop : Nat) (key value : Text) : List Text :=
  let followedByContent := after + 1 < stop && (lines[after]?.map Line.classify) = some .content
  propertyText key value :: if followedByContent then [[]] else []

def writeProperty (lines : List Text) (start stop : Nat) (key value : Text) : List Text :=
  let cluster := propertyCluster lines start stop
  match cluster.find? fun found => found.key = key with
  | some found =>
    if value = [] then lines.eraseIdx (found.line - 1)
    else replaceLine lines found.line (found.indent ++ propertyText key value)
  | none =>
    if value = [] then lines
    else
      let after := (cluster.getLast?.map PropertyLine.line).getD start
      lines.take after ++ insertedLines lines after stop key value ++ lines.drop after

-- Sets a property of the block whose header is on line `start`, and removes it when the value is
-- empty. The range is checked against the text: it is cut where the block ends, and a line that is
-- not the header of a block to which properties belong leaves the text as it is.
def patchProperty (text : Text) (start stop : Nat) (key value : Text) : Text :=
  match locate? text start with
  | none => text
  | some block =>
    if block.startLine = start then
      joinLines
        (writeProperty (splitLines text) start (min stop block.endLine) key (foldValue value))
    else text

end Block
end BlockMarkup
