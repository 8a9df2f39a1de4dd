import BlockMarkup.Proofs.Freshness
import BlockMarkup.Proofs.Session.Scoping
import BlockMarkup.Proofs.Style.ReadBack
import BlockMarkup.Proofs.Style.Updates
import BlockMarkup.Report

namespace BlockMarkup

open Identifier

theorem label_ne_next {source changed : Text} {number : Nat} {header : Header}
    (room : source.length < maxWord)
    (injected : Naming.injectLabel? source number (Identifier.next source) = some changed)
    (heads : Heads (splitLines changed) header) (other : header.line ≠ number) :
    header.label ≠ some (Identifier.next source) := by
  intro label
  obtain ⟨old, new, _, there, _, replaced, _⟩ := Naming.injectLabel?_next injected
  rw [Heads, replaced, lineAt?_replaceLine_ne (lineAt?_pos there) other] at heads
  have fits : nextNumber source ≤ maxWord :=
    nextNumber_le (Nat.lt_of_le_of_lt (length_numbersFrom_le none source) room)
  exact nextNumber_notMem source (mem_numbers_of_heads heads label fits)

namespace Style

theorem rulesForBlock_setProperty {graph : Graph} (distinct : graph.Distinct) {address : Address}
    {label : Text} (labelled : address.label = some label) {block : Block}
    (other : block.label ≠ some label) (property value : Text) :
    Report.rulesForBlock block (graph.setProperty address property value) =
      Report.rulesForBlock block graph := by
  have updated := (propertyUpdated_setProperty distinct address property value).rules
  simp only [Report.rulesForBlock, Graph.rulesFor, List.filter_filter]
  refine updated.filter_eq fun rule same => ?_
  simp [same, labelled, Ne.symm other]

theorem scopeLabel_of_label {edit : Edit} {n : Nat} (labelled : edit.label = some (text n)) :
    edit.scopeLabel = some (text n) := by
  simp [Edit.scopeLabel, labelled, trim_text, text_ne_nil]

-- After a header has been given the next identifier as its label, a style edit with that label gives
-- the rule of that label its property and leaves the rules that apply to any other block as they were.
-- As before, the text is one that a machine can hold.
theorem rulesForBlock_patch_scoped {source changed : Text} {number indent : Nat} {edit : Edit}
    {patch : Patch} (room : source.length < maxWord)
    (injected : Naming.injectLabel? source number (Identifier.next source) = some changed)
    (labelled : edit.label = some (Identifier.next source))
    (accepted : Style.patch indent changed (Graph.ofSource changed) edit = .ok patch) :
    (∀ header ∈ headers (splitLines changed), header.line ≠ number → ∀ line,
      Report.rulesForBlock (Block.ofHeader (splitLines changed) header line) patch.graph =
        Report.rulesForBlock (Block.ofHeader (splitLines changed) header line)
          (Graph.ofSource changed)) ∧
      patch.graph.property?
          ⟨trim edit.blockType, trim edit.target, some (Identifier.next source)⟩
          (trim edit.property) = wanted (trim edit.value) := by
  have distinct := distinct_ofSource changed
  have address : edit.address =
      ⟨trim edit.blockType, trim edit.target, some (Identifier.next source)⟩ := by
    rw [Edit.address, scopeLabel_of_label labelled]
    rfl
  constructor
  · intro header member apart line
    have other := label_ne_next room injected (mem_headers_iff.mp member) apart
    rw [patch_graph accepted, Edit.applyTo]
    exact rulesForBlock_setProperty distinct (congrArg Address.label address) other _ _
  · rw [← address]
    exact property?_patch distinct accepted

def labelledCards : Text :=
  "--- style\ncore/card:s1\n  color: red\n--- core/card: s1\n--- core/card".toList

def scopedCards : Text :=
  "--- style\ncore/card:s1\n  color: red\n--- core/card: s1\n--- core/card: s2".toList

def blueEdit : Edit :=
  ⟨"core/card".toList, selfTarget, "color".toList, "blue".toList, some "s2".toList⟩

theorem rulesForBlock_patch_labelledCards :
    Naming.injectLabel? labelledCards 5 (Identifier.next labelledCards) = some scopedCards ∧
      ∃ patch, Style.patch defaultIndent scopedCards (Graph.ofSource scopedCards) blueEdit =
          .ok patch ∧
        Report.rulesForBlock (Block.ofHeader (splitLines scopedCards)
            ⟨4, "core/card".toList, some "s1".toList⟩ 4) patch.graph =
          [⟨⟨"core/card".toList, selfTarget, some "s1".toList⟩,
            .ofList [("color".toList, "red".toList)]⟩] ∧
        patch.graph.property? ⟨"core/card".toList, selfTarget, some "s2".toList⟩ "color".toList =
          some "blue".toList := by
  have next : Identifier.next labelledCards = "s2".toList := by decide +kernel
  have injected : Naming.injectLabel? labelledCards 5 (Identifier.next labelledCards) =
      some scopedCards := by
    rw [next]
    decide +kernel
  obtain ⟨patch, accepted⟩ : ∃ patch, Style.patch defaultIndent scopedCards
      (Graph.ofSource scopedCards) blueEdit = .ok patch := ⟨_, rfl⟩
  obtain ⟨others, given⟩ :=
    rulesForBlock_patch_scoped (by decide) injected (congrArg some next).symm accepted
  refine ⟨injected, patch, accepted, ?_, ?_⟩
  · rw [others ⟨4, "core/card".toList, some "s1".toList⟩ (by decide +kernel) (by decide) 4]
    decide +kernel
  · rwa [next] at given

end Style
end BlockMarkup
