import BlockMarkup.Line
import BlockMarkup.Style.Reader

namespace BlockMarkup.Style

structure Region where
  headerLine : Nat
  -- One past the last line of the body; blank lines at its end do not belong to it.
  bodyEnd : Nat
  endLine : Nat
deriving DecidableEq

def isStyleHeader (line : Text) : Bool :=
  match Line.classify line with
  | .header blockType _ => blockType = styleType
  | _ => false

def regionsFrom (number : Nat) : List Text → List Region
  | [] => []
  | line :: rest =>
    if isStyleHeader line then
      let inside := linesToBoundary rest
      ⟨number, number + 1 + (dropBlankTail inside).length, number + 1 + inside.length⟩ ::
        regionsFrom (number + 1) rest
    else regionsFrom (number + 1) rest

namespace Region

def all (source : Text) : List Region := regionsFrom 1 (splitLines source)

def first? (source : Text) : Option Region := (all source).head?

def body (lines : List Text) (region : Region) : List Text :=
  (lines.take (region.bodyEnd - 1)).drop region.headerLine

end Region

def Graph.ofSource (source : Text) : Graph :=
  match Region.first? source with
  | none => .empty
  | some region => .ofLines (region.body (splitLines source))

end BlockMarkup.Style
