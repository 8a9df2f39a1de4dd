import BlockMarkup.Document.Outline
import BlockMarkup.Proofs.Lines

namespace BlockMarkup

variable {line : Text} {lines : List Text}

def Line.opened? : Line → Option (Text × Option Text)
  | .header blockType label => some (blockType, label)
  | _ => none

def Line.closed? : Line → Option Text
  | .close blockType => some blockType
  | _ => none

def openings (lines : List Text) : List (Text × Option Text) :=
  lines.filterMap fun line => (Line.classify line).opened?

def closings (lines : List Text) : List Text :=
  lines.filterMap fun line => (Line.classify line).closed?

theorem openings_append (front back : List Text) :
    openings (front ++ back) = openings front ++ openings back := List.filterMap_append

theorem closings_append (front back : List Text) :
    closings (front ++ back) = closings front ++ closings back := List.filterMap_append

theorem openings_eq_nil (plain : ∀ line ∈ lines, isBoundaryLine line = false) :
    openings lines = [] := by
  refine List.filterMap_eq_nil_iff.mpr fun line member => ?_
  have inside := plain line member
  cases kind : Line.classify line with
  | header blockType label => simp [isBoundaryLine, kind, Line.isBoundary] at inside
  | _ => rfl

-- Lines that are no boundary do not show between others.
theorem openings_between {first second : List Text} (front back : List Text)
    (before : ∀ line ∈ first, isBoundaryLine line = false)
    (after : ∀ line ∈ second, isBoundaryLine line = false) :
    openings (front ++ (first ++ back)) = openings (front ++ (second ++ back)) := by
  simp only [openings_append, openings_eq_nil before, openings_eq_nil after]

theorem outlineFrom_names (number : Nat) (lines : List Text) :
    (outlineFrom number lines).map (fun entry => (entry.blockType, entry.label)) =
      openings lines := by
  induction lines generalizing number with
  | nil => rfl
  | cons line rest ih =>
    rw [openings] at ih ⊢
    rw [outlineFrom, List.filterMap_cons]
    cases kind : Line.classify line with
    | header blockType label =>
      rw [List.map_cons, ih]
      rfl
    | _ => exact ih (number + 1)

theorem outline_names (source : Text) :
    (outline source).map (fun entry => (entry.blockType, entry.label)) =
      openings (splitLines source) :=
  outlineFrom_names 1 (splitLines source)

end BlockMarkup
