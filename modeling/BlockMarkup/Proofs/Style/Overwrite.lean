import BlockMarkup.Proofs.Style.Isolation

namespace BlockMarkup.Style

variable {indent : Nat} {source : Text} {graph : Graph}

def HasStyle (source : Text) : Prop := ∃ line ∈ splitLines source, isStyleHeader line = true

instance : DecidablePred HasStyle := fun source =>
  inferInstanceAs (Decidable (∃ line ∈ splitLines source, isStyleHeader line = true))

-- A graph whose body makes one whole block: something is written, no string spans lines, and no
-- line that is written is a boundary.
structure Graph.Enclosed (indent : Nat) (graph : Graph) : Prop where
  filled : graph.bodyLines indent ≠ []
  oneLine : graph.OneLine
  plain : ∀ line ∈ graph.bodyLines indent, isBoundaryLine line = false

theorem HasStyle.parts (present : HasStyle source) :
    ∃ above header body blanks below,
      Region.Parts (splitLines source) above header body blanks below := by
  apply Region.exists_parts
  intro absent
  obtain ⟨line, member, isHeader⟩ := present
  rw [absent line member] at isHeader
  cases isHeader

section parts

variable {header : Text} {above body blanks below : List Text}

theorem Region.Parts.hasStyle
    (parts : Region.Parts (splitLines source) above header body blanks below) : HasStyle source := by
  refine ⟨header, ?_, parts.isHeader⟩
  rw [parts.whole]
  exact List.mem_append_right _ List.mem_cons_self

theorem Region.Parts.overwritten
    (parts : Region.Parts (splitLines source) above header body blanks below)
    (enclosed : graph.Enclosed indent) :
    Region.Parts (splitLines (writeBlock indent source graph).text) above header
      (graph.bodyLines indent) blanks below where
  whole := splitLines_written_over parts enclosed.filled
  first := parts.first
  isHeader := parts.isHeader
  plain := by
    intro line member
    rcases List.mem_append.mp member with inBody | apart
    · exact enclosed.plain line inBody
    · exact parts.plain line (List.mem_append_right _ apart)
  filled := bodyLines_closed enclosed.oneLine
  blank := parts.blank
  stop := parts.stop

end parts

theorem HasStyle.writeBlock (present : HasStyle source) (enclosed : graph.Enclosed indent) :
    HasStyle (Style.writeBlock indent source graph).text := by
  obtain ⟨above, header, body, blanks, below, parts⟩ := present.parts
  exact (parts.overwritten enclosed).hasStyle

end BlockMarkup.Style
