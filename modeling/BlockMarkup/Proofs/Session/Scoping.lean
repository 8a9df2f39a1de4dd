import BlockMarkup.Proofs.Header
import BlockMarkup.Proofs.Identifier
import BlockMarkup.Proofs.Naming
import BlockMarkup.Proofs.Outline
import BlockMarkup.Session

namespace BlockMarkup

variable {source changed old new : Text} {lines : List Text} {number : Nat} {header : Header}

theorem IsOver.relabelled {label : Option Text} (isOver : IsOver lines number header)
    (kind : Line.classify new = .header header.blockType label) :
    IsOver (replaceLine lines header.line new) number { header with label := label } := by
  obtain ⟨old, there⟩ := isOver.heads.line_at
  refine ⟨?_, isOver.above, fun other heads upTo => ?_⟩
  · rw [Heads, lineAt?_replaceLine there, Option.map_some, kind]
  · by_contra later
    dsimp only at later
    have apart : other.line ≠ header.line := by omega
    rw [Heads, lineAt?_replaceLine_ne (lineAt?_pos there) apart] at heads
    exact later (isOver.last other heads upTo)

theorem ofHeader_relabelled (label : Option Text) (positive : 1 ≤ header.line)
    (above : header.line ≤ number) :
    Block.ofHeader (replaceLine lines header.line new) { header with label := label } number =
      { Block.ofHeader lines header number with label := label } := by
  have boundary : boundaryAfter (replaceLine lines header.line new) number =
      boundaryAfter lines number := by
    rw [boundaryAfter, boundaryAfter, drop_replaceLine positive above]
  have cluster : ∀ stop, propertyCluster (replaceLine lines header.line new) header.line stop =
      propertyCluster lines header.line stop := by
    intro stop
    rw [propertyCluster, propertyCluster, List.drop_take, List.drop_take,
      drop_replaceLine positive (Nat.le_refl _)]
  simp only [Block.ofHeader, boundary, cluster]

theorem locate?_relabelled {block : Block} {label : Option Text}
    (located : Block.locate? source number = some block)
    (replaced : splitLines changed = replaceLine (splitLines source) block.startLine new)
    (kind : Line.classify new = .header block.blockType label) :
    Block.locate? changed number = some { block with label := label } := by
  have count : lineCount changed = lineCount source := by
    rw [lineCount, replaced, replaceLine, List.length_set, ← lineCount]
  rw [← locate?_min] at located
  obtain ⟨header, isOver, noStyle, rfl⟩ :=
    (locate?_eq_some_iff (Nat.min_le_right _ _)).mp located
  obtain ⟨old, there⟩ := isOver.heads.line_at
  rw [← locate?_min, count]
  refine (locate?_eq_some_iff (count ▸ Nat.min_le_right _ _)).mpr
    ⟨{ header with label := label }, ?_, noStyle, ?_⟩
  · rw [replaced]
    exact isOver.relabelled kind
  · rw [replaced]
    exact ofHeader_relabelled label (lineAt?_pos there) isOver.above

theorem Naming.injectLabel?_next
    (injected : injectLabel? source number (Identifier.next source) = some changed) :
    ∃ old new blockType, lineAt? (splitLines source) number = some old ∧
      Line.classify old = .header blockType none ∧
      splitLines changed = replaceLine (splitLines source) number new ∧
      Line.classify new = .header blockType (some (labelShown old (Identifier.next source))) := by
  obtain ⟨old, blockType, kind, _, replaced⟩ := injectLabel?_eq_some injected
  have noNewline := Identifier.newline_notMem_text (Identifier.nextNumber source)
  obtain ⟨noFront, noReturn⟩ := replaced.newline_notMem
  have noTrimmed : '\n' ∉ trimEnd (dropReturn old) :=
    fun member => noFront ((prefix_trimEnd _).subset member)
  refine ⟨old, _, blockType, replaced.there, kind, replaced.splitLines ?_, ?_⟩
  · simp only [List.mem_append, List.mem_cons, not_or]
    exact ⟨⟨noTrimmed, by decide, by decide, noNewline⟩, noReturn⟩
  · exact classify_labelled kind (Identifier.text_ne_nil _) (Identifier.trim_text _) noNewline

theorem labelShown_eq_iff (line label : Text) : labelShown line label = label ↔ ¬Dangling line := by
  unfold labelShown
  split
  · rename_i dangling
    refine iff_of_false (fun same => ?_) (not_not_intro dangling)
    have lengths := congrArg List.length same
    rw [List.length_cons, List.length_cons] at lengths
    omega
  · rename_i fixed
    exact iff_of_true rfl fixed

namespace Session

variable {compile : Compiler} {session next : Session compile} {label : Text}

theorem scopeBlock_eq_ok (answered : session.scopeBlock = (next, .ok label)) :
    ∃ block, session.cursorBlock? = some block ∧ block.isSpecial = false ∧
      (block.label = some label ∧ next = session ∨
        block.label = none ∧ label = Identifier.next session.source ∧
          ∃ changed, Naming.injectLabel? session.source block.startLine label = some changed ∧
            next = session.commit changed) := by
  unfold scopeBlock requireBlock at answered
  cases located : session.cursorBlock? with
  | none =>
    rw [located] at answered
    cases answered
  | some block =>
    rw [located] at answered
    dsimp only at answered
    split at answered
    · cases answered
    rename_i ordinary
    refine ⟨block, rfl, by simpa using ordinary, ?_⟩
    split at answered
    · rename_i given
      cases answered
      exact .inl ⟨given, rfl⟩
    · rename_i unlabelled
      split at answered
      · rename_i changed injected
        cases answered
        exact .inr ⟨unlabelled, rfl, changed, injected, rfl⟩
      · cases answered

theorem heads_of_cursorBlock? {block : Block} (located : session.cursorBlock? = some block) :
    Heads (splitLines session.source) ⟨block.startLine, block.blockType, block.label⟩ := by
  rw [cursorBlock?, ← locate?_min] at located
  obtain ⟨header, isOver, _, rfl⟩ := (locate?_eq_some_iff (Nat.min_le_right _ _)).mp located
  exact isOver.heads

theorem scopeBlock_of_labelled {block : Block} (located : session.cursorBlock? = some block)
    (ordinary : block.isSpecial = false) (given : block.label = some label) :
    session.scopeBlock = (session, .ok label) := by
  simp [scopeBlock, requireBlock, located, ordinary, given]

-- The line that gets the label is read with it, and the block at the cursor has it from then on, exactly
-- when the line does not end in a colon. All else of the text, the block and the session stays.
theorem scopeBlock_label (source : Text) (session : Session compile) :
    (∀ number changed,
      Naming.injectLabel? source number (Identifier.next source) = some changed →
      ∃ old new blockType, lineAt? (splitLines source) number = some old ∧
        Line.classify old = .header blockType none ∧
        splitLines changed = replaceLine (splitLines source) number new ∧
        Line.classify new = .header blockType (some (labelShown old (Identifier.next source))) ∧
        (labelShown old (Identifier.next source) = Identifier.next source ↔ ¬Dangling old)) ∧
      ∀ next label, session.scopeBlock = (next, .ok label) →
        ∃ block line shown, session.cursorBlock? = some block ∧
          lineAt? (splitLines session.source) block.startLine = some line ∧
          next.cursorBlock? = some { block with label := some shown } ∧
          next.scopeBlock = (next, .ok shown) ∧
          (shown = label ↔ block.label ≠ none ∨ ¬Dangling line) := by
  constructor
  · intro number changed injected
    obtain ⟨old, new, blockType, there, kind, replaced, read⟩ := Naming.injectLabel?_next injected
    exact ⟨old, new, blockType, there, kind, replaced, read, labelShown_eq_iff old _⟩
  · intro next label answered
    obtain ⟨block, located, ordinary, ⟨given, rfl⟩ | ⟨unlabelled, rfl, changed, injected, rfl⟩⟩ :=
      scopeBlock_eq_ok answered
    · obtain ⟨line, there⟩ := (heads_of_cursorBlock? located).line_at
      refine ⟨block, line, label, located, there, ?_, answered, iff_of_true rfl (.inl ?_)⟩
      · rw [located, ← given]
      · rw [given]
        exact Option.some_ne_none label
    · obtain ⟨old, new, blockType, there, kind, replaced, read⟩ := Naming.injectLabel?_next injected
      have heads := heads_of_cursorBlock? located
      rw [Heads, there, Option.map_some, kind, Option.some.injEq, Line.header.injEq] at heads
      have relabelled : (session.commit changed).cursorBlock? =
          some { block with label := some (labelShown old (Identifier.next session.source)) } :=
        locate?_relabelled located replaced (by rw [read, heads.1])
      refine ⟨block, old, _, located, there, relabelled,
        scopeBlock_of_labelled relabelled ordinary rfl, ?_⟩
      rw [labelShown_eq_iff]
      simp [unlabelled]

def spacedCard : Session compileStyles :=
  start compileStyles "--- core/card  \r\nHi".toList Style.defaultIndent .default

theorem scopeBlock_label_spacedCard :
    Naming.injectLabel? spacedCard.source 1 (Identifier.next spacedCard.source) =
        some "--- core/card: s1\r\nHi".toList ∧
      ¬Dangling "--- core/card  \r".toList ∧
      (∃ blockType, Line.classify "--- core/card: s1\r".toList =
        .header blockType (some "s1".toList)) ∧
      ∃ (next : Session compileStyles) (block : Block),
        spacedCard.scopeBlock = (next, .ok "s1".toList) ∧
        next.cursorBlock? = some { block with label := some "s1".toList } ∧
        next.scopeBlock = (next, .ok "s1".toList) := by
  obtain ⟨texts, answers⟩ := scopeBlock_label spacedCard.source spacedCard
  have injected : Naming.injectLabel? spacedCard.source 1 (Identifier.next spacedCard.source) =
      some "--- core/card: s1\r\nHi".toList := by decide +kernel
  have answered : spacedCard.scopeBlock = (spacedCard.scopeBlock.1, .ok "s1".toList) :=
    Prod.ext rfl (by decide +kernel)
  have fixed : ¬Dangling "--- core/card  \r".toList := by decide +kernel
  have name : Identifier.next spacedCard.source = "s1".toList := by decide +kernel
  have header : lineAt? (splitLines spacedCard.source) 1 = some "--- core/card  \r".toList := by
    decide +kernel
  have written : lineAt? (splitLines "--- core/card: s1\r\nHi".toList) 1 =
      some "--- core/card: s1\r".toList := by decide +kernel
  have first : spacedCard.cursorBlock?.map Block.startLine = some 1 := by decide +kernel
  obtain ⟨old, new, blockType, there, _, replaced, read, shows⟩ := texts _ _ injected
  rw [header, Option.some.injEq] at there
  subst there
  rw [replaced, lineAt?_replaceLine header, Option.some.injEq] at written
  rw [shows.mpr fixed, name, written] at read
  obtain ⟨block, line, shown, located, above, after, again, same⟩ := answers _ _ answered
  rw [located, Option.map_some, Option.some.injEq] at first
  rw [first, header, Option.some.injEq] at above
  subst above
  rw [same.mpr (.inr fixed)] at after again
  exact ⟨injected, fixed, ⟨blockType, read⟩, _, block, answered, after, again⟩

def danglingCard : Session compileStyles :=
  start compileStyles "--- core/card:\nHi".toList Style.defaultIndent .default

-- The label that it is given is read with a colon in front of it.
theorem danglingCard_mislabelled :
    Naming.injectLabel? danglingCard.source 1 (Identifier.next danglingCard.source) =
        some "--- core/card:: s1\nHi".toList ∧
      Line.classify "--- core/card:: s1".toList = .header "core/card".toList (some ": s1".toList) ∧
      danglingCard.scopeBlock.2 = .ok "s1".toList ∧
      danglingCard.scopeBlock.1.cursorBlock?.map Block.label = some (some ": s1".toList) ∧
      danglingCard.scopeBlock.1.scopeBlock.2 = .ok ": s1".toList := by
  decide +kernel

end Session
end BlockMarkup
