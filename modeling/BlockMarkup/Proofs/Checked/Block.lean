import BlockMarkup.Proofs.Block.Patch
import BlockMarkup.Proofs.Checked.Scan

namespace BlockMarkup.Checked

variable {text : Text} {lines : List Text} {cursor : UInt64}

-- A text as it stands in memory, where no object has 2 ^ 63 bytes.
def Fits (text : Text) : Prop := text.length < 9223372036854775808

instance (text : Text) : Decidable (Fits text) := inferInstanceAs (Decidable (_ < _))

theorem lineCount_le_length (text : Text) : lineCount text ≤ text.length + 1 := by
  induction text with
  | nil => exact Nat.le_refl _
  | cons c rest ih =>
    rw [lineCount, splitLines] at ih ⊢
    rw [List.splitOn_cons_eq_if_modifyHead, List.length_cons]
    split
    · rw [List.length_cons]
      omega
    · rw [List.length_modifyHead]
      omega

theorem Fits.lines_lt (fits : Fits text) : (splitLines text).length < maxWord := by
  have count := lineCount_le_length text
  rw [Fits] at fits
  rw [lineCount] at count
  rw [maxWord]
  omega

-- Whether the text ends in a block, so that there is one at every line past the end.
def endsInBlock (text : Text) : Bool := (Block.locate? text (lineCount text)).isSome

theorem locate?_of_past {number : Nat} (past : lineCount text ≤ number) :
    Block.locate? text number = Block.locate? text (lineCount text) := by
  rw [← locate?_min text number, Nat.min_eq_right past]

theorem lineCount_le_maxWord (fits : Fits text) : lineCount text ≤ maxWord :=
  Nat.le_of_lt fits.lines_lt

theorem locate?_zero (text : Text) : Block.locate? text 0 = none := by
  rw [locate?_of_le (Nat.zero_le _)]
  rfl

theorem checked_of_none (fits : Fits text) (none : Block.locate? text cursor.toNat = none) :
    (if cursor.toNat = maxWord ∧ endsInBlock text = true then .error .overflow
      else .ok (Block.locate? text cursor.toNat) : Checked (Option Block)) = .ok .none := by
  rw [none, if_neg]
  rintro ⟨last, ends⟩
  rw [last, locate?_of_past (lineCount_le_maxWord fits)] at none
  rw [endsInBlock, none] at ends
  cases ends

theorem locate_eq (fits : Fits text) (cursor : UInt64) :
    locate text cursor =
      if cursor.toNat = maxWord ∧ endsInBlock text = true then .error .overflow
      else .ok (Block.locate? text cursor.toNat) := by
  by_cases empty : text = []
  · rw [checked_of_none fits (if_pos empty), locate, if_pos (.inl empty)]
  by_cases zero : cursor.toNat = 0
  · rw [checked_of_none fits (zero ▸ locate?_zero text), locate, if_pos (.inr zero)]
  rw [locate, if_neg (not_or.mpr ⟨empty, zero⟩)]
  dsimp only
  rw [headerAtOrAbove_eq_ok (Nat.min_le_right _ _), ok_bind]
  cases found : headerAtOrAbove? (splitLines text) (min cursor.toNat (splitLines text).length) with
  | none =>
    rw [checked_of_none fits (by simp [Block.locate?, found])]
    rfl
  | some header =>
    dsimp only
    split
    · rename_i isStyle
      rw [checked_of_none fits (by simp [Block.locate?, found, isStyle])]
      rfl
    rename_i ordinary
    have above := (headerAtOrAbove?_eq_some_iff.mp found).above
    have located : Block.locate? text cursor.toNat = some (Block.ofHeader (splitLines text) header
        (min cursor.toNat (splitLines text).length)) := by
      simp [Block.locate?, empty, found, ordinary]
    rw [Nat.max_eq_left (Nat.le_trans above (Nat.min_le_left _ _))]
    by_cases last : cursor.toNat = maxWord
    · have ends : endsInBlock text = true := by
        rw [endsInBlock, ← locate?_of_past (last ▸ lineCount_le_maxWord fits), located]
        rfl
      rw [if_pos ⟨last, ends⟩, last]
      rfl
    · have isWord : cursor.toNat + 1 ≤ maxWord := by
        have bound := cursor.toNat_lt
        rw [maxWord] at last ⊢
        omega
      rw [if_neg fun both => last both.1, sum_eq_ok isWord, ok_bind,
        boundaryFrom_eq_ok fits.lines_lt, ok_bind,
        propertyCluster_eq_ok fits.lines_lt (Nat.le_trans above (Nat.min_le_right _ _)), located]
      rfl

theorem locate_congr {other : Text} (fits : Fits text) (otherFits : Fits other)
    (count : lineCount other = lineCount text)
    (same : ∀ number, Block.locate? other number = Block.locate? text number) (cursor : UInt64) :
    locate other cursor = locate text cursor := by
  rw [locate_eq otherFits, locate_eq fits, endsInBlock, endsInBlock, count, same, same]

variable {start stop : Nat} {found : PropertyLine}

theorem line_le_of_mem (member : found ∈ BlockMarkup.propertyCluster lines start stop) :
    1 ≤ found.line ∧ found.line ≤ lines.length := by
  have bounds := mem_clusterFrom_bounds member
  rw [List.length_drop, List.length_take] at bounds
  omega

theorem insertProperty_eq_ok (fits : lines.length < maxWord) {after : Nat}
    (within : after ≤ lines.length) (stop : Nat) (key value : Text) :
    insertProperty lines after stop key value =
      .ok (lines.take after ++ Block.insertedLines lines after stop key value ++ lines.drop after) := by
  have cut : lines.take after ++ propertyText key value :: lines.drop after =
      (lines.take after ++ [propertyText key value]) ++ lines.drop after := by simp
  have front : after + 1 = (lines.take after ++ [propertyText key value]).length := by
    rw [List.length_append, List.length_take, Nat.min_eq_left within, List.length_singleton]
  rw [insertProperty, insert, if_pos within, ok_bind, sum_eq_ok (by omega), ok_bind,
    Block.insertedLines]
  split
  · have inside : after + 1 ≤
        (lines.take after ++ propertyText key value :: lines.drop after).length := by
      rw [cut, List.length_append, ← front]
      omega
    rw [ok_bind, insert, if_pos inside, cut, front, List.take_left, List.drop_left]
    simp
  · rw [List.append_assoc]
    rfl

theorem writeProperty_eq_ok (fits : lines.length < maxWord) (within : start ≤ lines.length)
    (stop : Nat) (key value : Text) :
    writeProperty lines start stop key value = .ok (Block.writeProperty lines start stop key value) := by
  rw [writeProperty, propertyCluster_eq_ok fits within, ok_bind, Block.writeProperty]
  dsimp only
  cases here : (BlockMarkup.propertyCluster lines start stop).find? fun found => found.key = key with
  | some found =>
    obtain ⟨positive, inside⟩ := line_le_of_mem (List.mem_of_find?_eq_some here)
    have index : found.line - 1 < lines.length := by omega
    dsimp only
    rw [difference_eq_ok positive, ok_bind, ok_bind, erase, set, if_pos index, if_pos index,
      replaceLine]
    split <;> rfl
  | none =>
    have last : ((BlockMarkup.propertyCluster lines start stop).getLast?.map
        PropertyLine.line).getD start ≤ lines.length := by
      cases last : (BlockMarkup.propertyCluster lines start stop).getLast? with
      | none => exact within
      | some found => exact (line_le_of_mem (List.mem_of_getLast? last)).2
    dsimp only
    rw [insertProperty_eq_ok fits last]
    split <;> rfl

theorem patchProperty_eq (fits : Fits text) (start stop : UInt64) (key value : Text) :
    patchProperty text start stop key value =
      if start.toNat = maxWord ∧ endsInBlock text = true then .error .overflow
      else .ok (Block.patchProperty text start.toNat stop.toNat key value) := by
  rw [patchProperty, locate_eq fits]
  split
  · rfl
  rw [ok_bind, Block.patchProperty]
  cases located : Block.locate? text start.toNat with
  | none => rfl
  | some block =>
    dsimp only
    split
    · rename_i here
      obtain ⟨named, _, _, _, _, parts, place⟩ := Block.exists_parts_of_locate? located here
      rw [writeProperty_eq_ok fits.lines_lt (place ▸ parts.line_le)]
      rfl
    · rfl

theorem not_headsBlock_maxWord (fits : Fits text) : ¬Block.HeadsBlock (splitLines text) maxWord := by
  rintro ⟨blockType, label, heads, _⟩
  obtain ⟨line, there, _⟩ := Option.map_eq_some_iff.mp heads
  have within := (exists_lineAt?_iff.mp ⟨line, there⟩).2
  exact Nat.lt_irrefl _ (Nat.lt_of_le_of_lt within fits.lines_lt)

-- Setting a property edits one line of the block, whatever range is given, and nothing at all
-- without a block. There is one fault: the greatest word, at which no block starts, is refused when
-- the text ends in a block.
theorem patchProperty_isolated (fits : Fits text) (start stop : UInt64) (key value : Text)
    (plain : '\n' ∉ key) :
    (patchProperty text start stop key value = .error .overflow ↔
      start.toNat = maxWord ∧ endsInBlock text = true) ∧
    (start.toNat = maxWord → ¬Block.HeadsBlock (splitLines text) start.toNat) ∧
    (¬(start.toNat = maxWord ∧ endsInBlock text = true) →
      ∃ patched, patchProperty text start stop key value = .ok patched ∧
        (Block.HeadsBlock (splitLines text) start.toNat →
          Block.LineEdit (splitLines text) start.toNat stop.toNat key (foldValue value)
            (splitLines patched)) ∧
        (¬Block.HeadsBlock (splitLines text) start.toNat → patched = text) ∧
        (IsKey key →
          (outline patched).map (fun entry => (entry.blockType, entry.label)) =
              (outline text).map (fun entry => (entry.blockType, entry.label)) ∧
            Style.Graph.ofSource patched = Style.Graph.ofSource text)) := by
  have patches := patchProperty_eq fits start stop key value
  refine ⟨?_, fun last => last ▸ not_headsBlock_maxWord fits, fun answered => ?_⟩
  · rw [patches]
    split <;> simp [*]
  · rw [if_neg answered] at patches
    exact ⟨_, patches, Block.patchProperty_edits text start.toNat stop.toNat key value plain⟩

def plainCard : Text := "--- core/card\nHi".toList

theorem patchProperty_isolated_plainCard :
    Fits plainCard ∧ '\n' ∉ "size".toList ∧ Block.HeadsBlock (splitLines plainCard) 1 ∧
      IsKey "size".toList ∧
      patchProperty plainCard 1 9 "size".toList "3".toList =
        .ok "--- core/card\nsize: 3\n\nHi".toList ∧
      Block.LineEdit (splitLines plainCard) 1 9 "size".toList "3".toList
        ["--- core/card".toList, "size: 3".toList, [], "Hi".toList] ∧
      Style.Graph.ofSource "--- core/card\nsize: 3\n\nHi".toList =
        Style.Graph.ofSource plainCard := by
  have fits : Fits plainCard := by decide
  have plain : '\n' ∉ "size".toList := by decide
  have heads : Block.HeadsBlock (splitLines plainCard) 1 :=
    ⟨"core/card".toList, none, by decide, by decide⟩
  have isKey : IsKey "size".toList :=
    ⟨'s', "ize".toList, .inl rfl, by decide, List.all_eq_true.mp rfl⟩
  have written : patchProperty plainCard 1 9 "size".toList "3".toList =
      .ok "--- core/card\nsize: 3\n\nHi".toList := by
    decide +kernel
  obtain ⟨_, _, answers⟩ := patchProperty_isolated fits 1 9 "size".toList "3".toList plain
  obtain ⟨patched, answer, edit, _, kept⟩ := answers (by decide)
  cases written.symm.trans answer
  exact ⟨fits, plain, heads, isKey, written, edit heads, (kept isKey).2⟩

-- No block starts at the greatest word, but the text is not given back.
theorem plainCard_refused :
    Fits plainCard ∧ '\n' ∉ "size".toList ∧
      ¬Block.HeadsBlock (splitLines plainCard) (18446744073709551615 : UInt64).toNat ∧
      ∀ patched, patchProperty plainCard 18446744073709551615 3 "size".toList "2".toList ≠
        .ok patched := by
  have fits : Fits plainCard := by decide
  refine ⟨fits, by decide, not_headsBlock_maxWord fits, fun patched answer => ?_⟩
  have refused : patchProperty plainCard 18446744073709551615 3 "size".toList "2".toList =
      .error .overflow := by
    decide +kernel
  cases refused.symm.trans answer

end BlockMarkup.Checked
