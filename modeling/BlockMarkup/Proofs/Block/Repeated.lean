import BlockMarkup.Proofs.Block.Commute
import BlockMarkup.Proofs.Block.Moved

namespace BlockMarkup

variable {lines : List Text} {header : Header} {number : Nat}

namespace Block

variable {text key value line : Text} {above inside below range after : List Text}
variable {named : Header}

def lineOf? (text : Text) (block : Block) (key : Text) : Option Nat :=
  ((propertyCluster (splitLines text) block.startLine block.endLine).find? fun found =>
    found.key = key).map PropertyLine.line

section first

variable {front rest : List Text} {here indent old : Text}

theorem find?_clusterFrom_first (leading : ∀ line ∈ front, Leading line)
    (first : key ∉ (pairs front).map Prod.fst)
    (read : Line.classify here = .property indent key old) (number : Nat) :
    (clusterFrom number (front ++ here :: rest)).find? (fun found => found.key = key) =
      some ⟨number + front.length, indent, key, old⟩ := by
  have none : (clusterFrom number front).find? (fun found => found.key = key) = none := by
    rw [List.find?_eq_none]
    simpa using (key_notMem_pairs_iff number).mp first
  simp [clusterFrom_append leading, clusterFrom, read, List.find?_append, none]

theorem setInside_of_property (leading : ∀ line ∈ front, Leading line)
    (first : key ∉ (pairs front).map Prod.fst)
    (read : Line.classify here = .property indent key old) (present : value ≠ []) :
    setInside key value (front ++ here :: rest) =
      front ++ (indent ++ propertyText key value) :: rest := by
  rw [setInside, writeProperty, propertyCluster_inside, find?_clusterFrom_first leading first read]
  simp [present, replaceLine]

end first

theorem Rewritten.cut (rewritten : Rewritten key value range after) (number : Nat) :
    ∃ front removed added back, range = front ++ (removed ++ back) ∧
      after = front ++ (added ++ back) ∧ removed.length ≤ added.length + 1 ∧
      (removed = [] ∨ removed.length = 1 ∧
        ((clusterFrom (number + 1) range).find? fun found => found.key = key).map
          PropertyLine.line = some (number + 1 + front.length)) := by
  cases rewritten with
  | same _ _ => exact ⟨range, [], [], [], by simp, by simp, by simp, .inl rfl⟩
  | @replaced front rest here indent old leading first read _ =>
    refine ⟨front, [here], [_], rest, rfl, rfl, by simp, .inr ⟨rfl, ?_⟩⟩
    rw [find?_clusterFrom_first leading first read, Option.map_some]
  | @removed front rest here indent old leading first read _ =>
    refine ⟨front, [here], [], rest, rfl, rfl, by simp, .inr ⟨rfl, ?_⟩⟩
    rw [find?_clusterFrom_first leading first read, Option.map_some]
  | @inserted front rest gap _ _ _ _ _ =>
    exact ⟨front, [], propertyText key value :: gap, rest, rfl, by simp, by simp, .inl rfl⟩

theorem setInside_rewritten (rewritten : Rewritten key value range after) (isKey : IsKey key)
    (present : value ≠ []) (trimmed : trim value = value) (plain : '\n' ∉ value) :
    setInside key value after = after := by
  have read : ∀ indent : Text, (∀ c ∈ indent, isBlank c = true) →
      Line.classify (indent ++ propertyText key value) = .property indent key value :=
    fun indent blanks => classify_propertyText blanks isKey trimmed plain
  cases rewritten with
  | same _ empty => exact absurd empty present
  | removed _ _ _ empty => exact absurd empty present
  | replaced leading first old _ =>
    exact setInside_of_property leading first (read _ (indent_of_classify old).1) present
  | inserted leading absent _ _ _ =>
    exact setInside_of_property leading absent (read [] (by simp)) present

theorem patchProperty_of_le (parts : Parts (splitLines text) named above line inside below)
    {stop : Nat} (past : boundaryAfter (splitLines text) named.line ≤ stop) (key value : Text) :
    patchProperty text named.line stop key value =
      patchProperty text named.line (shown named inside).endLine key value := by
  have ends : (shown named inside).endLine ≤ stop := by
    rw [parts.boundaryAfter] at past
    exact past
  simp only [patchProperty, parts.locate?, Nat.min_eq_right ends, Nat.min_self]

-- A property that has been set is not set again, whatever range that is not too short is given.
theorem patchProperty_again (parts : Parts (splitLines text) named above line after below)
    (rewritten : Rewritten key (foldValue value) range after) (isKey : IsKey key)
    (present : foldValue value ≠ []) {stop : Nat}
    (past : boundaryAfter (splitLines text) named.line ≤ stop) :
    patchProperty text named.line stop key value = text := by
  obtain ⟨trimmed, plain⟩ := foldValue_trimmed value
  have again := (parts.patched_inside isKey value).whole
  rw [setInside_rewritten rewritten isKey present trimmed plain, ← parts.whole] at again
  rw [patchProperty_of_le parts past, ← joinLines_splitLines (patchProperty _ _ _ _ _), again,
    joinLines_splitLines]

end Block
end BlockMarkup
