import BlockMarkup.Naming
import BlockMarkup.Proofs.Block.Locate
import BlockMarkup.Proofs.Lines

namespace BlockMarkup

variable {source changed old new : Text} {lines : List Text} {number other : Nat}

theorem lineAt?_replaceLine (there : lineAt? lines number = some old) :
    lineAt? (replaceLine lines number new) number = some new := by
  obtain ⟨above, below, rfl, rfl⟩ := exists_cut_of_lineAt? there
  simp [lineAt?, replaceLine]

theorem lineAt?_replaceLine_ne (positive : 1 ≤ number) (apart : other ≠ number) :
    lineAt? (replaceLine lines number new) other = lineAt? lines other := by
  cases other with
  | zero => rfl
  | succ index =>
    rw [lineAt?, lineAt?, replaceLine, List.getElem?_set_ne (by omega)]

theorem drop_replaceLine {start : Nat} (positive : 1 ≤ number) (above : number ≤ start) :
    (replaceLine lines number new).drop start = lines.drop start :=
  List.drop_set_of_lt (by omega)

structure LineReplaced (source changed : Text) (number : Nat) (old new : Text) : Prop where
  there : lineAt? (splitLines source) number = some old
  text : changed = joinLines (replaceLine (splitLines source) number new)

namespace LineReplaced

theorem splitLines (replaced : LineReplaced source changed number old new) (plain : '\n' ∉ new) :
    BlockMarkup.splitLines changed = replaceLine (BlockMarkup.splitLines source) number new := by
  rw [replaced.text]
  refine splitLines_joinLines ?_ fun line member => ?_
  · rw [replaceLine, ne_eq, List.set_eq_nil_iff]
    exact List.splitOn_ne_nil '\n' source
  · rcases List.mem_or_eq_of_mem_set member with before | rfl
    · exact newline_notMem_of_mem_splitLines before
    · exact plain

theorem newline_notMem (replaced : LineReplaced source changed number old new) :
    '\n' ∉ dropReturn old ∧ '\n' ∉ finalReturn old := by
  obtain ⟨above, below, whole, _⟩ := exists_cut_of_lineAt? replaced.there
  have member : old ∈ BlockMarkup.splitLines source := by simp [whole]
  have plain := newline_notMem_of_mem_splitLines member
  rw [← dropReturn_append_finalReturn old] at plain
  simpa only [List.mem_append, not_or] using plain

theorem lineCount_le (replaced : LineReplaced source changed number old new) :
    lineCount source ≤ lineCount changed := by
  have kept := length_le_lineCount_joinLines (replaceLine (BlockMarkup.splitLines source) number new)
  rwa [replaceLine, List.length_set, ← replaceLine, ← replaced.text] at kept

end LineReplaced

namespace Naming

theorem injectLabel?_eq_some {label : Text} (injected : injectLabel? source number label = some changed) :
    ∃ old blockType, Line.classify old = .header blockType none ∧ isReserved blockType = false ∧
      LineReplaced source changed number old
        (trimEnd (dropReturn old) ++ ':' :: ' ' :: label ++ finalReturn old) := by
  unfold injectLabel? at injected
  dsimp only at injected
  split at injected
  · cases injected
  rename_i old there
  split at injected
  · rename_i blockType kind
    split at injected
    · cases injected
    · rename_i ordinary
      cases injected
      exact ⟨old, blockType, kind, by simpa using ordinary, there, rfl⟩
  · cases injected

theorem candidateAtOrAbove?_eq_some {limit : Nat}
    (found : candidateAtOrAbove? lines limit = some number) :
    number ≤ limit ∧ ∃ old, lineAt? lines number = some old ∧ isCandidate old = true := by
  induction limit with
  | zero => cases found
  | succ limit ih =>
    rw [candidateAtOrAbove?] at found
    split at found
    · rename_i candidate
      cases found
      refine ⟨Nat.le_refl _, ?_⟩
      cases there : lines[limit]? with
      | none =>
        rw [there] at candidate
        cases candidate
      | some old =>
        rw [there] at candidate
        exact ⟨old, there, candidate⟩
    · obtain ⟨above, candidate⟩ := ih found
      exact ⟨Nat.le_succ_of_le above, candidate⟩

-- The line is content of the block that it stands in, if it stands in one.
def IsContent (lines : List Text) (number : Nat) : Prop :=
  ∀ header ∈ headerAtOrAbove? lines number, isContentOf lines header number = true

instance (lines : List Text) (number : Nat) : Decidable (IsContent lines number) :=
  decidable_of_iff ((headerAtOrAbove? lines number).all (fun header =>
    isContentOf lines header number) = true) (Option.all_eq_true _ _)

structure TakesClass (source : Text) (limit number : Nat) : Prop where
  found : candidateAtOrAbove? (splitLines source) (min limit (splitLines source).length) = some number
  content : IsContent (splitLines source) number

theorem injectClass?_eq {limit : Nat} (takes : TakesClass source limit number)
    (there : lineAt? (splitLines source) number = some old) (name : Text) :
    injectClass? source limit name = (annotate? (dropReturn old) name).map fun annotated =>
      joinLines (replaceLine (splitLines source) number (annotated ++ finalReturn old)) := by
  have content : (headerAtOrAbove? (splitLines source) number).all (fun header =>
      isContentOf (splitLines source) header number) = true :=
    (Option.all_eq_true _ _).mpr takes.content
  rw [injectClass?, takes.found]
  simp only [content, ↓reduceIte, there, Option.getD_some]

theorem injectClass?_eq_some {name : Text} {limit : Nat}
    (injected : injectClass? source limit name = some changed) :
    ∃ number old annotated, TakesClass source limit number ∧ isCandidate old = true ∧
      annotate? (dropReturn old) name = some annotated ∧
      LineReplaced source changed number old (annotated ++ finalReturn old) := by
  unfold injectClass? at injected
  dsimp only at injected
  split at injected
  · cases injected
  rename_i number found
  split at injected
  · rename_i content
    obtain ⟨annotated, written, rfl⟩ := Option.map_eq_some_iff.mp injected
    obtain ⟨_, old, there, candidate⟩ := candidateAtOrAbove?_eq_some found
    rw [there, Option.getD_some] at written
    refine ⟨number, old, annotated, ⟨found, (Option.all_eq_true _ _).mp content⟩, candidate, written, there,
      ?_⟩
    rw [there, Option.getD_some]
  · cases injected

end Naming
end BlockMarkup
