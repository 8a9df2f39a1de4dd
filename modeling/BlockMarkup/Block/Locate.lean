import BlockMarkup.Block.Cluster
import BlockMarkup.Properties

namespace BlockMarkup

structure Block where
  blockType : Text
  startLine : Nat
  endLine : Nat
  properties : Properties
  label : Option Text
deriving DecidableEq

namespace Block

def isSpecial (block : Block) : Bool := isReserved block.blockType

def inlineStyles (block : Block) : List (Text × Text) :=
  block.properties.entries.filterMap fun entry =>
    (dropStart? ['@'] entry.1).map fun name => (name, entry.2)

def readProperties (cluster : List PropertyLine) : Properties :=
  .ofList (cluster.map fun found => (found.key, found.value))

def ofHeader (lines : List Text) (header : Header) (line : Nat) : Block :=
  let stop := boundaryAfter lines line
  { blockType := header.blockType
    startLine := header.line
    endLine := stop
    properties := readProperties (propertyCluster lines header.line stop)
    label := header.label }

-- The block around a line. A line past the end counts as the last one. There is none above the
-- first header, in an empty text, and in a style block.
def locate? (text : Text) (line : Nat) : Option Block :=
  if text = [] then none
  else
    let lines := splitLines text
    let line := min line lines.length
    match headerAtOrAbove? lines line with
    | none => none
    | some header => if header.blockType = styleType then none else some (ofHeader lines header line)

end Block
end BlockMarkup
