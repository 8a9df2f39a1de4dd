import BlockMarkup.Checked.Naming
import BlockMarkup.Proofs.Checked.Block
import BlockMarkup.Proofs.Naming
import BlockMarkup.Proofs.Shape

namespace BlockMarkup.Checked

variable {source text : Text} {lines : List Text} {number count : Nat} {header : Header}

theorem candidateAtOrAbove_eq_ok (within : count ≤ lines.length) :
    candidateAtOrAbove lines count = .ok ((Naming.candidateAtOrAbove? lines count).map fun number =>
      (number, ((lineAt? lines number).map Line.classify).getD .blank)) := by
  induction count with
  | zero => rfl
  | succ number ih =>
    obtain ⟨text, there, read⟩ := exists_line (Nat.succ_pos number) within
    have above := ih (Nat.le_of_succ_le within)
    have here : lines[number]? = some text := there
    rw [candidateAtOrAbove] at above
    rw [candidateAtOrAbove, searchDown, read, ok_bind, Naming.candidateAtOrAbove?, here,
      Option.any_some, Naming.isCandidate]
    cases kind : Line.classify text with
    | property | content => simp [there, kind]
    | _ => exact above

theorem headerAtOrAbove?_candidate (there : lineAt? lines number = some text)
    (candidate : Naming.isCandidate text = true) :
    headerAtOrAbove? lines (number - 1) = headerAtOrAbove? lines number := by
  cases number with
  | zero => rfl
  | succ number =>
    rw [headerAtOrAbove?_succ there, Nat.add_sub_cancel]
    cases kind : Line.classify text with
    | header blockType label => simp [Naming.isCandidate, kind] at candidate
    | _ => rfl

theorem isRefused_of_cluster (fits : lines.length < maxWord) (ordinary : header.blockType ≠ styleType)
    {cluster : List PropertyLine}
    (read : propertyCluster lines header.line (lines.length + 1) = .ok cluster) (number : Nat)
    (kind : Line) : isRefused lines number kind (some header) =
      .ok (kind.isProperty && cluster.any fun found => found.line = number) := by
  rw [isRefused, if_neg ordinary]
  split
  · rename_i property
    rw [sum_eq_ok fits, ok_bind, read, ok_bind, property]
    rfl
  · rename_i other
    simp [other]

theorem isRefused_eq_ok (fits : lines.length < maxWord) (there : lineAt? lines number = some text) :
    isRefused lines number (Line.classify text) (headerAtOrAbove? lines number) =
      .ok !(headerAtOrAbove? lines number).all fun header =>
        Naming.isContentOf lines header number := by
  cases found : headerAtOrAbove? lines number with
  | none => rfl
  | some header =>
    rw [Option.all_some, Naming.isContentOf]
    by_cases style : header.blockType = styleType
    · simp [isRefused, style]
    have within := (headerAtOrAbove?_eq_some_iff.mp found).heads.line_le
    -- Only a property line is in a cluster, so asking what the line is first takes nothing away.
    have property : ((BlockMarkup.propertyCluster lines header.line (lines.length + 1)).any
        fun found => found.line = number) = true → (Line.classify text).isProperty = true := by
      intro some
      obtain ⟨property, member, here⟩ := List.any_eq_true.mp some
      have kind := classify_of_mem_propertyCluster member
      rw [of_decide_eq_true here, there, Option.map_some, Option.some.injEq] at kind
      rw [kind]
      rfl
    rw [isRefused_of_cluster fits style (propertyCluster_eq_ok fits within _),
      ← Bool.eq_and_self.mpr property]
    simp [style]

theorem injectClass_eq_ok (fits : Fits source) (cursor : UInt64) (name : Text) :
    injectClass source cursor name = .ok (Naming.injectClass? source cursor.toNat name) := by
  rw [injectClass, candidateAtOrAbove_eq_ok (Nat.min_le_right _ _), ok_bind, Naming.injectClass?]
  dsimp only
  cases found : Naming.candidateAtOrAbove? (splitLines source)
      (min cursor.toNat (splitLines source).length) with
  | none => rfl
  | some number =>
    obtain ⟨_, old, there, candidate⟩ := Naming.candidateAtOrAbove?_eq_some found
    have range := exists_lineAt?_iff.mp ⟨old, there⟩
    have inside : number - 1 < (splitLines source).length := by omega
    dsimp only [Option.map_some]
    rw [headerAtOrAbove_eq_ok (by omega), ok_bind, headerAtOrAbove?_candidate there candidate, there,
      Option.map_some, Option.getD_some, Option.getD_some, isRefused_eq_ok fits.lines_lt there, ok_bind,
      line_eq_ok there, ok_bind, difference_eq_ok range.1]
    cases (headerAtOrAbove? (splitLines source) number).all fun header =>
        Naming.isContentOf (splitLines source) header number with
    | false => rfl
    | true =>
      cases Naming.annotate? (dropReturn old) name with
      | none => rfl
      | some annotated =>
        dsimp only [Bool.not_true]
        rw [ok_bind, set, if_pos inside]
        rfl

theorem injectLabel_eq_ok (source : Text) (cursor : UInt64) (label : Text) :
    injectLabel source cursor label = .ok (Naming.injectLabel? source cursor.toNat label) := by
  rw [injectLabel, Naming.injectLabel?]
  cases there : lineAt? (splitLines source) cursor.toNat with
  | none => rfl
  | some found =>
    obtain ⟨positive, within⟩ := exists_lineAt?_iff.mp ⟨found, there⟩
    have inside : cursor.toNat - 1 < (splitLines source).length := by omega
    dsimp only
    rw [difference_eq_ok positive, ok_bind, set, if_pos inside, ok_bind, replaceLine]
    cases Line.classify found with
    | header blockType given =>
      cases given with
      | none =>
        dsimp only
        split <;> rfl
      | some given => rfl
    | _ => rfl

theorem toNat_shiftLine (patch : Style.Patch) (cursor : UInt64) :
    (shiftLine patch cursor).toNat = min (patch.shiftLine cursor.toNat) maxWord := by
  have bound := cursor.toNat_lt
  rw [shiftLine, Style.Patch.shiftLine]
  split
  · rw [boundedSum, UInt64.toNat_ofNat', maxWord]
    omega
  · rw [maxWord]
    omega

-- There is one fault: a block that reaches the end of the text, asked for at the greatest word or
-- written from there. All other line numbers are answered, those past the end as the last line.
theorem answers_numbered (fits : Fits text) :
    (∀ cursor : UInt64, locate text cursor =
      if cursor.toNat = maxWord ∧ endsInBlock text = true then .error .overflow
      else .ok (Block.locate? text (min cursor.toNat (lineCount text)))) ∧
    (∀ (start stop : UInt64) (key value : Text), patchProperty text start stop key value =
      if start.toNat = maxWord ∧ endsInBlock text = true then .error .overflow
      else .ok (Block.patchProperty text start.toNat stop.toNat key value)) ∧
    (∀ (patch : Style.Patch) (cursor : UInt64),
      (shiftLine patch cursor).toNat = min (patch.shiftLine cursor.toNat) maxWord) ∧
    (∀ (cursor : UInt64) (name : Text),
      injectClass text cursor name = .ok (Naming.injectClass? text cursor.toNat name)) ∧
    ∀ (cursor : UInt64) (label : Text),
      injectLabel text cursor label = .ok (Naming.injectLabel? text cursor.toNat label) := by
  refine ⟨fun cursor => ?_, patchProperty_eq fits, toNat_shiftLine, injectClass_eq_ok fits,
    injectLabel_eq_ok text⟩
  rw [locate?_min]
  exact locate_eq fits cursor

def styledBelow : Text := "--- core/card\nsize: 2\n\nHi\n--- style\ncore/card\n  color: red".toList

theorem answers_numbered_styledBelow :
    Fits styledBelow ∧ endsInBlock styledBelow = false ∧
      locate styledBelow 18446744073709551615 = .ok none ∧
      (locate styledBelow 3).map (fun found => found.map Block.endLine) = .ok (some 5) ∧
      patchProperty styledBelow 1 18446744073709551615 "size".toList [] =
        .ok "--- core/card\n\nHi\n--- style\ncore/card\n  color: red".toList := by
  have fits : Fits styledBelow := by decide
  have ends : endsInBlock styledBelow = false := by decide +kernel
  obtain ⟨located, patched, _⟩ := answers_numbered fits
  refine ⟨fits, ends, ?_, ?_, ?_⟩
  · rw [located, if_neg (by simp [ends])]
    decide +kernel
  · rw [located, if_neg (by simp [ends])]
    decide +kernel
  · rw [patched, if_neg (by simp [ends])]
    decide +kernel

theorem plainCard_faults :
    Fits plainCard ∧ lineCount plainCard < maxWord ∧
      (Block.locate? plainCard (lineCount plainCard)).map Block.toEntry =
        some ⟨"core/card".toList, none, 1, 3⟩ ∧
      (locate plainCard 18446744073709551614).map (fun found => found.map Block.toEntry) =
        .ok (some ⟨"core/card".toList, none, 1, 3⟩) ∧
      locate plainCard 18446744073709551615 = .error .overflow ∧
      patchProperty plainCard 18446744073709551615 3 "size".toList "2".toList =
        .error .overflow := by
  decide +kernel

end BlockMarkup.Checked
