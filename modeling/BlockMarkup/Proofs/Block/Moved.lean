import BlockMarkup.Proofs.Block.Cluster
import BlockMarkup.Proofs.Outline

namespace BlockMarkup

variable {lines others front back : List Text} {header : Header} {number : Nat}

theorem not_leading_of_boundary {line : Text} (boundary : isBoundaryLine line = true) :
    ¬Leading line := by
  rw [isBoundaryLine] at boundary
  rw [Leading]
  cases kind : Line.classify line with
  | header | close => simp [Line.isProperty]
  | _ => simp [kind, Line.isBoundary] at boundary

theorem clusterFrom_append_stop (stop : ∀ line ∈ back.head?, ¬Leading line) (number : Nat)
    (front : List Text) : clusterFrom number (front ++ back) = clusterFrom number front := by
  induction front generalizing number with
  | nil =>
    cases back with
    | nil => rfl
    | cons line rest =>
      have ends := stop line rfl
      rw [Leading, not_or] at ends
      rw [List.nil_append, clusterFrom, clusterFrom]
      cases kind : Line.classify line with
      | property => simp [kind, Line.isProperty] at ends
      | blank => exact absurd kind ends.2
      | _ => rfl
  | cons line rest ih => rw [List.cons_append, clusterFrom, clusterFrom, ih]

theorem clusterFrom_append_boundary (stop : ∀ line ∈ back.head?, isBoundaryLine line = true)
    (number : Nat) (front : List Text) :
    clusterFrom number (front ++ back) = clusterFrom number front :=
  clusterFrom_append_stop (fun line first => not_leading_of_boundary (stop line first)) number front

theorem pairs_append_boundary (stop : ∀ line ∈ back.head?, isBoundaryLine line = true)
    (front : List Text) : pairs (front ++ back) = pairs front := by
  rw [pairs, clusterFrom_append_boundary stop, ← pairs]

theorem pairs_append_gap {gap : List Text} (blank : ∀ line ∈ gap, isBlankLine line = true)
    (stop : ∀ line ∈ back.head?, isBoundaryLine line = true) (front : List Text) :
    pairs (front ++ (gap ++ back)) = pairs front := by
  rw [← List.append_assoc, pairs_append_boundary stop, pairs, clusterFrom_append_blanks blank,
    ← pairs]

-- The cluster of a block is the one right under its header, from wherever in the block its end is
-- looked for.
theorem propertyCluster_boundaryAfter {start : Nat} (above : start ≤ number) :
    propertyCluster lines start (boundaryAfter lines number) =
      clusterFrom (start + 1) (lines.drop start) := by
  have ends := ends_boundaryAfter lines number
  generalize boundaryAfter lines number = stop at ends ⊢
  have after := ends.after
  have place : lineAt? lines stop = (lines.drop (stop - 1)).head? := by
    obtain ⟨index, rfl⟩ : ∃ index, stop = index + 1 := ⟨stop - 1, by omega⟩
    rw [List.head?_drop]
    rfl
  have cut : lines.drop start =
      (lines.take (stop - 1)).drop start ++ lines.drop (stop - 1) := by
    have rest : lines.drop (stop - 1) = (lines.drop start).drop (stop - 1 - start) := by
      rw [List.drop_drop, Nat.add_sub_cancel' (by omega)]
    rw [List.drop_take, rest, List.take_append_drop]
  rw [cut, clusterFrom_append_boundary (place ▸ ends.boundary), propertyCluster]

theorem properties_ofHeader (above : header.line ≤ number) :
    (Block.ofHeader lines header number).properties =
      .ofList (pairs (lines.drop header.line)) := by
  rw [← readProperties_clusterFrom (header.line + 1), ← propertyCluster_boundaryAfter above]
  rfl

theorem IsOver.moved {start count : Nat} (isOver : IsOver lines (header.line + count) header)
    (heads : Heads others { header with line := start })
    (same : (others.drop start).take count = (lines.drop header.line).take count) :
    IsOver others (start + count) { header with line := start } := by
  refine ⟨heads, Nat.le_add_right start count, fun other otherHeads upTo => ?_⟩
  apply Nat.le_of_not_lt
  intro after
  dsimp only at after
  obtain ⟨index, place⟩ : ∃ index, other.line = start + index + 1 :=
    ⟨other.line - start - 1, by omega⟩
  have between : index < count := by omega
  have line : lineAt? lines (header.line + index + 1) = lineAt? others other.line := by
    have both := congrArg (fun part : List Text => part[index]?) same
    simp only [List.getElem?_take, between, ↓reduceIte, List.getElem?_drop] at both
    rw [place]
    exact both.symm
  have early : Heads lines ⟨header.line + index + 1, other.blockType, other.label⟩ := by
    rw [Heads, line]
    exact otherHeads
  have notLater := isOver.last _ early (by dsimp only; omega)
  dsimp only at notLater
  omega

theorem locate?_moved {text changed : Text} {start moved : Nat}
    (isOver : IsOver (splitLines changed) moved { header with line := start })
    (within : moved ≤ lineCount changed) (noStyle : header.blockType ≠ styleType)
    (above : header.line ≤ number)
    (same : pairs ((splitLines changed).drop start) = pairs ((splitLines text).drop header.line)) :
    ∃ after, Block.locate? changed moved = some after ∧ after.startLine = start ∧
      after.blockType = header.blockType ∧ after.label = header.label ∧
      after.properties = (Block.ofHeader (splitLines text) header number).properties := by
  refine ⟨_, (locate?_eq_some_iff within).mpr ⟨_, isOver, noStyle, rfl⟩, rfl, rfl, rfl, ?_⟩
  rw [properties_ofHeader above, properties_ofHeader isOver.above, same]

end BlockMarkup
