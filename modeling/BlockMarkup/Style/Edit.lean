import BlockMarkup.EditError
import BlockMarkup.Style.Region
import BlockMarkup.Style.Writer

namespace BlockMarkup.Style

structure Edit where
  blockType : Text
  target : Text
  property : Text
  value : Text
  label : Option Text
deriving DecidableEq

def styleHeader : Text := "--- style".toList

-- How many lines stand before a new style block. It goes right after the last `use` header;
-- without one, after the last filled line of a `meta` block that opens the document; and
-- otherwise first.
def insertionPoint (lines : List Text) : Nat :=
  match ((headers lines).filter fun header => header.blockType = "use".toList).getLast? with
  | some header => header.line
  | none =>
    let above := (linesToBoundary lines).length
    match lines.drop above with
    | [] => 0
    | line :: rest =>
      match Line.classify line with
      | .header blockType _ =>
        if blockType = "meta".toList then
          above + 1 + (dropBlankTail (linesToBoundary rest)).length
        else 0
      | _ => 0

structure Written where
  text : Text
  shiftFrom : Nat
deriving DecidableEq

def replaceBody (lines : List Text) (region : Region) (body : List Text) : List Text :=
  lines.take (if body = [] then region.headerLine - 1 else region.headerLine) ++ body ++
    lines.drop (region.bodyEnd - 1)

def separator (following : List Text) : List Text :=
  match following with
  | [] => []
  | line :: _ => if isBlankLine line then [] else [[]]

def insertBlock (lines : List Text) (point : Nat) (body : List Text) : List Text :=
  lines.take point ++ styleHeader :: body ++ separator (lines.drop point) ++ lines.drop point

def writeBlock (indent : Nat) (source : Text) (graph : Graph) : Written :=
  let lines := splitLines source
  let body := graph.bodyLines indent
  match Region.first? source with
  | some region => ⟨joinLines (replaceBody lines region body), region.bodyEnd⟩
  | none =>
    if body = [] then ⟨source, lines.length + 1⟩
    else
      let point := insertionPoint lines
      ⟨joinLines (insertBlock lines point body), point + 1⟩

structure Patch where
  text : Text
  graph : Graph
  delta : Int
  -- The first line, as numbered before, that moved.
  shiftFrom : Nat
deriving DecidableEq

def Patch.shiftLine (patch : Patch) (line : Nat) : Nat :=
  if patch.shiftFrom ≤ line then max ((line : Int) + patch.delta).toNat 1 else line

namespace Edit

def scopeLabel (edit : Edit) : Option Text :=
  match edit.label with
  | none => none
  | some label => if trim label = [] then none else some (trim label)

def address (edit : Edit) : Address := ⟨trim edit.blockType, trim edit.target, edit.scopeLabel⟩

def refusal? (edit : Edit) : Option EditError :=
  if trim edit.blockType = [] then some (.emptyName .blockType)
  else if isReserved (trim edit.blockType) then some (.reservedBlockType (trim edit.blockType))
  else if trim edit.target = [] then some (.emptyName .target)
  else if trim edit.property = [] then some (.emptyName .property)
  else none

end Edit

-- Applies an edit to a document and its graph. When the property has the wanted value already, the
-- text stays as it is.
def patch (indent : Nat) (source : Text) (graph : Graph) (edit : Edit) : Except EditError Patch :=
  match edit.refusal? with
  | some refusal => .error refusal
  | none =>
    let property := trim edit.property
    let value := trim edit.value
    let changed := graph.setProperty edit.address property value
    if graph.isChange edit.address property value then
      let written := writeBlock indent source changed
      .ok ⟨written.text, changed, lineDelta source written.text, written.shiftFrom⟩
    else .ok ⟨source, changed, 0, lineCount source + 1⟩

end BlockMarkup.Style
