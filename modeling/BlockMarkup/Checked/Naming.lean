import BlockMarkup.Checked.Block
import BlockMarkup.Naming
import BlockMarkup.Style.Edit

namespace BlockMarkup.Checked

def candidateAtOrAbove (lines : List Text) (count : Nat) : Checked (Option (Nat × Line)) :=
  searchDown (fun number => do
    match Line.classify (← line lines number) with
    | .blank | .header .. | .close _ => return none
    | kind => return some (number, kind)) count

def isRefused (lines : List Text) (number : Nat) (kind : Line) : Option Header → Checked Bool
  | none => .ok false
  | some header =>
    if header.blockType = styleType then .ok true
    else if kind.isProperty then do
      let cluster ← propertyCluster lines header.line (← sum lines.length 1)
      return cluster.any fun found => found.line = number
    else .ok false

def injectClass (source : Text) (cursor : UInt64) (name : Text) : Checked (Option Text) := do
  let lines := splitLines source
  match ← candidateAtOrAbove lines (min cursor.toNat lines.length) with
  | none => return none
  | some (number, kind) =>
    if ← isRefused lines number kind (← headerAtOrAbove lines (number - 1)) then return none
    else
      let found ← line lines number
      match Naming.annotate? (dropReturn found) name with
      | none => return none
      | some annotated =>
        let changed ← set lines (← difference number 1) (annotated ++ finalReturn found)
        return some (joinLines changed)

def injectLabel (source : Text) (cursor : UInt64) (label : Text) : Checked (Option Text) := do
  let lines := splitLines source
  match lineAt? lines cursor.toNat with
  | none => return none
  | some found =>
    match Line.classify found with
    | .header blockType none =>
      if isReserved blockType then return none
      else
        let changed ← set lines (← difference cursor.toNat 1)
          (trimEnd (dropReturn found) ++ ':' :: ' ' :: label ++ finalReturn found)
        return some (joinLines changed)
    | _ => return none

def shiftLine (patch : Style.Patch) (cursor : UInt64) : UInt64 :=
  if patch.shiftFrom ≤ cursor.toNat then
    UInt64.ofNat (max (boundedSum cursor.toNat patch.delta) 1)
  else cursor

end BlockMarkup.Checked
