import BlockMarkup.Block.Patch
import BlockMarkup.Checked

namespace BlockMarkup.Checked

def headerAtOrAbove (lines : List Text) (count : Nat) : Checked (Option Header) :=
  searchDown (fun number => do
    match Line.classify (← line lines number) with
    | .header blockType label => return some ⟨number, blockType, label⟩
    | _ => return none) count

def boundaryFrom (lines : List Text) (first : Nat) : Checked Nat := do
  let found ← searchUp (fun number => return isBoundaryLine (← line lines number))
    (lines.length + 1 - first) first
  let past ← sum lines.length 1
  return (found.map Subtype.val).getD past

def successor (number : Nat) : Checked { next : Nat // number < next } :=
  if number + 1 ≤ maxWord then .ok ⟨number + 1, Nat.lt_succ_self number⟩ else .error .overflow

def filledBelow (lines : List Text) (stop number : Nat) :
    Checked (Option { next : Nat // number < next }) :=
  searchUp (fun next => return !isBlankLine (← line lines next)) (stop - (number + 1)) (number + 1)

-- The property lines from `number` on, up to the first line that is neither one nor blank and
-- before line `stop`. Blank lines are skipped at once when a property follows them.
def clusterFrom (lines : List Text) (stop number : Nat) : Checked (List PropertyLine) :=
  if number < stop then do
    match Line.classify (← line lines number) with
    | .property indent key value =>
      let ⟨next, _⟩ ← successor number
      let others ← clusterFrom lines stop next
      return ⟨number, indent, key, value⟩ :: others
    | .blank =>
      match ← filledBelow lines stop number with
      | some ⟨next, _⟩ =>
        if (Line.classify (← line lines next)).isProperty then clusterFrom lines stop next
        else return []
      | none => return []
    | _ => return []
  else return []
termination_by stop - number

def propertyCluster (lines : List Text) (start stop : Nat) : Checked (List PropertyLine) := do
  let past ← sum lines.length 1
  clusterFrom lines (min stop past) (← sum start 1)

def locate (text : Text) (cursor : UInt64) : Checked (Option Block) :=
  if text = [] ∨ cursor.toNat = 0 then .ok none
  else do
    let lines := splitLines text
    match ← headerAtOrAbove lines (min cursor.toNat lines.length) with
    | none => return none
    | some header =>
      if header.blockType = styleType then return none
      else
        let stop ← boundaryFrom lines (← sum (max cursor.toNat header.line) 1)
        let cluster ← propertyCluster lines header.line stop
        return some ⟨header.blockType, header.line, stop, Block.readProperties cluster, header.label⟩

def insertProperty (lines : List Text) (after stop : Nat) (key value : Text) :
    Checked (List Text) := do
  let written ← insert lines after (propertyText key value)
  let following ← sum after 1
  if following < stop && lines[after]?.map Line.classify = some .content then
    insert written (← sum after 1) []
  else return written

def writeProperty (lines : List Text) (start stop : Nat) (key value : Text) :
    Checked (List Text) := do
  let cluster ← propertyCluster lines start stop
  match cluster.find? fun found => found.key = key with
  | some found =>
    if value = [] then erase lines (← difference found.line 1)
    else set lines (← difference found.line 1) (found.indent ++ propertyText key value)
  | none =>
    if value = [] then return lines
    else insertProperty lines ((cluster.getLast?.map PropertyLine.line).getD start) stop key value

def patchProperty (text : Text) (start stop : UInt64) (key value : Text) : Checked Text := do
  match ← locate text start with
  | none => return text
  | some block =>
    if block.startLine = start.toNat then
      return joinLines (← writeProperty (splitLines text) start.toNat (min stop.toNat block.endLine)
        key (foldValue value))
    else return text

end BlockMarkup.Checked
