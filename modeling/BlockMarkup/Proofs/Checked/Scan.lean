import BlockMarkup.Checked.Block
import BlockMarkup.Proofs.Outline
import BlockMarkup.Proofs.Block.Cluster

namespace BlockMarkup.Checked

variable {lines : List Text} {text : Text} {number stop count : Nat}

theorem exists_line (positive : 1 ≤ number) (within : number ≤ lines.length) :
    ∃ text, lineAt? lines number = some text ∧ line lines number = .ok text := by
  obtain ⟨text, there⟩ := exists_lineAt?_iff.mpr ⟨positive, within⟩
  exact ⟨text, there, line_eq_ok there⟩

theorem headerAtOrAbove?_succ (there : lineAt? lines (number + 1) = some text) :
    headerAtOrAbove? lines (number + 1) =
      match Line.classify text with
      | .header blockType label => some ⟨number + 1, blockType, label⟩
      | _ => headerAtOrAbove? lines number := by
  rw [lineAt?] at there
  obtain ⟨within, _⟩ := List.getElem?_eq_some_iff.mp there
  have place : 1 + (lines.take number).length = number + 1 := by
    rw [List.length_take, Nat.min_eq_left (Nat.le_of_lt within), Nat.add_comm]
  rw [BlockMarkup.headerAtOrAbove?, List.take_add_one, there, headers, headersFrom_append, place,
    Option.toList_some, headersFrom]
  cases Line.classify text with
  | header blockType label => exact List.getLast?_concat
  | _ => rw [headersFrom, List.append_nil, ← headers, ← BlockMarkup.headerAtOrAbove?]

theorem headerAtOrAbove_eq_ok (within : count ≤ lines.length) :
    headerAtOrAbove lines count = .ok (headerAtOrAbove? lines count) := by
  induction count with
  | zero => rfl
  | succ number ih =>
    obtain ⟨text, there, read⟩ := exists_line (Nat.succ_pos number) within
    have above := ih (Nat.le_of_succ_le within)
    rw [headerAtOrAbove] at above
    rw [headerAtOrAbove, searchDown, read, headerAtOrAbove?_succ there, ok_bind]
    cases Line.classify text with
    | header blockType label => rfl
    | _ => exact above

-- What a search among `count` numbers from `number` on finds.
inductive FirstOf (test : Nat → Bool) (count number : Nat) :
    Option { found : Nat // number ≤ found } → Prop where
  | none (fails : ∀ other, number ≤ other → other < number + count → test other = false) :
      FirstOf test count number none
  | some {found : Nat} (later : number ≤ found) (within : found < number + count)
      (passes : test found = true)
      (fails : ∀ other, number ≤ other → other < found → test other = false) :
      FirstOf test count number (some ⟨found, later⟩)

theorem searchUp_eq_ok {passes : Nat → Checked Bool} {test : Nat → Bool}
    (reads : ∀ other, number ≤ other → other < number + count → passes other = .ok (test other)) :
    ∃ found, searchUp passes count number = .ok found ∧ FirstOf test count number found := by
  induction count generalizing number with
  | zero => exact ⟨none, rfl, .none fun other after before => absurd before (Nat.not_lt.mpr after)⟩
  | succ count ih =>
    rw [searchUp, reads number (Nat.le_refl number) (Nat.lt_add_of_pos_right (Nat.succ_pos count)),
      ok_bind]
    cases here : test number with
    | true =>
      refine ⟨some ⟨number, Nat.le_refl number⟩, rfl, .some _ (by omega) here ?_⟩
      exact fun other after before => absurd before (Nat.not_lt.mpr after)
    | false =>
      obtain ⟨found, searched, first⟩ := ih fun other after before =>
        reads other (Nat.le_of_succ_le after) (by omega)
      simp only [Bool.false_eq_true, ↓reduceIte, searched, ok_bind]
      have failsHere : ∀ other, number ≤ other → ¬number + 1 ≤ other → test other = false := by
        intro other after upTo
        obtain rfl : other = number := by omega
        exact here
      cases first with
      | none fails =>
        refine ⟨none, rfl, .none fun other after before => ?_⟩
        by_cases past : number + 1 ≤ other
        · exact fails other past (by omega)
        · exact failsHere other after past
      | some later within passes fails =>
        refine ⟨_, rfl, .some (Nat.le_of_succ_le later) (by omega) passes ?_⟩
        intro other after before
        by_cases past : number + 1 ≤ other
        · exact fails other past before
        · exact failsHere other after past

def passesAt (lines : List Text) (test : Text → Bool) (number : Nat) : Bool :=
  (lineAt? lines number).any test

theorem searchLines_eq_ok (test : Text → Bool) (count : Nat) (positive : 1 ≤ number)
    (within : ∀ other, number ≤ other → other < number + count → other ≤ lines.length) :
    ∃ found, searchUp (fun other => return test (← line lines other)) count number = .ok found ∧
      FirstOf (passesAt lines test) count number found := by
  apply searchUp_eq_ok
  intro other after before
  obtain ⟨text, there, read⟩ :=
    exists_line (Nat.le_trans positive after) (within other after before)
  rw [read, ok_bind, passesAt, there]
  rfl

theorem exists_line_of_fails {test : Text → Bool} (positive : 1 ≤ number)
    (within : number ≤ lines.length) (fails : passesAt lines test number = false) :
    ∃ text, lineAt? lines number = some text ∧ test text = false := by
  obtain ⟨text, there⟩ := exists_lineAt?_iff.mpr ⟨positive, within⟩
  rw [passesAt, there] at fails
  exact ⟨text, there, fails⟩

theorem lineAt?_past (lines : List Text) : lineAt? lines (lines.length + 1) = none :=
  List.getElem?_eq_none (Nat.le_refl lines.length)

theorem boundaryFrom_eq_ok (fits : lines.length < maxWord) (number : Nat) :
    boundaryFrom lines (number + 1) = .ok (boundaryAfter lines (min number lines.length)) := by
  have within : ∀ other, number + 1 ≤ other →
      other < number + 1 + (lines.length + 1 - (number + 1)) → other ≤ lines.length := by omega
  obtain ⟨found, searched, first⟩ :=
    searchLines_eq_ok isBoundaryLine _ (Nat.succ_pos number) within
  rw [boundaryFrom, searched, ok_bind, sum_eq_ok fits, ok_bind]
  refine congrArg Except.ok (Ends.eq_boundaryAfter ?_)
  cases first with
  | none fails =>
    refine ⟨?_, fun between after before => ?_, ?_⟩
    · exact Nat.lt_succ_of_le (Nat.min_le_right _ _)
    · dsimp only [Option.map_none, Option.getD_none] at before
      refine exists_line_of_fails (Nat.one_le_of_lt after) (Nat.le_of_lt_succ before)
        (fails between ?_ ?_) <;> omega
    · simp [lineAt?_past]
  | some later within passes fails =>
    rename_i found
    refine ⟨?_, fun between after before => ?_, ?_⟩
    · dsimp only [Option.map_some, Option.getD_some]
      omega
    · dsimp only [Option.map_some, Option.getD_some] at before
      refine exists_line_of_fails (Nat.one_le_of_lt after) ?_ (fails between ?_ before) <;> omega
    · intro text there
      have here : lineAt? lines found = some text := there
      rwa [passesAt, here] at passes

def between (lines : List Text) (number stop : Nat) : List Text :=
  (lines.take (stop - 1)).drop (number - 1)

theorem between_cons (there : lineAt? lines number = some text) (before : number < stop) :
    between lines number stop = text :: between lines (number + 1) stop := by
  cases number with
  | zero => cases there
  | succ index =>
    have inside : (lines.take (stop - 1))[index]? = some text := by
      rw [List.getElem?_take_of_lt (by omega)]
      exact there
    rw [between, between, Nat.add_sub_cancel, Nat.add_sub_cancel,
      List.drop_eq_getElem?_toList_append, inside]
    rfl

theorem between_eq_nil (lines : List Text) (upTo : stop ≤ number) :
    between lines number stop = [] :=
  List.drop_eq_nil_of_le (Nat.le_trans (List.length_take_le _ _) (Nat.sub_le_sub_right upTo 1))

theorem clusterFrom_skip {next : Nat} (positive : 1 ≤ number) (upTo : number ≤ next)
    (before : next ≤ stop) (within : stop ≤ lines.length + 1)
    (blank : ∀ other, number ≤ other → other < next → passesAt lines isBlankLine other = true) :
    BlockMarkup.clusterFrom number (between lines number stop) =
      BlockMarkup.clusterFrom next (between lines next stop) := by
  obtain ⟨gap, rfl⟩ := Nat.exists_eq_add_of_le upTo
  induction gap generalizing number with
  | zero => rfl
  | succ gap ih =>
    obtain ⟨text, there⟩ := exists_lineAt?_iff.mpr ⟨positive, (by omega : number ≤ lines.length)⟩
    have isBlank := blank number (Nat.le_refl number) (by omega)
    rw [passesAt, there, Option.any_some, isBlankLine, decide_eq_true_eq] at isBlank
    have rest := ih (Nat.succ_pos number) (by omega) (by omega) fun other after upTo =>
      blank other (by omega) (by omega)
    have place : number + 1 + gap = number + (gap + 1) := by omega
    rw [place] at rest
    rw [between_cons there (by omega), BlockMarkup.clusterFrom, isBlank]
    exact rest

theorem blank_of_not_filled (positive : 1 ≤ number) (within : number ≤ lines.length)
    (fails : passesAt lines (fun text => !isBlankLine text) number = false) :
    passesAt lines isBlankLine number = true := by
  obtain ⟨text, there, blank⟩ := exists_line_of_fails positive within fails
  rw [passesAt, there, Option.any_some]
  simpa using blank

-- What the cluster has below a blank line: nothing, or what it has from the next filled line on.
inductive Below (lines : List Text) (stop number : Nat) :
    Option { next : Nat // number < next } → Prop where
  | nothing (empty : BlockMarkup.clusterFrom (number + 1) (between lines (number + 1) stop) = []) :
      Below lines stop number none
  | filled {next : Nat} {text : Text} (later : number < next) (before : next < stop)
      (there : lineAt? lines next = some text) (filled : Line.classify text ≠ .blank)
      (same : BlockMarkup.clusterFrom (number + 1) (between lines (number + 1) stop) =
        BlockMarkup.clusterFrom next (between lines next stop)) :
      Below lines stop number (some ⟨next, later⟩)

theorem filledBelow_eq_ok (before : number < stop) (within : stop ≤ lines.length + 1) :
    ∃ found, filledBelow lines stop number = .ok found ∧ Below lines stop number found := by
  have inside : ∀ other, number + 1 ≤ other → other < number + 1 + (stop - (number + 1)) →
      other ≤ lines.length := by omega
  obtain ⟨found, searched, first⟩ :=
    searchLines_eq_ok (fun text => !isBlankLine text) _ (Nat.succ_pos number) inside
  refine ⟨found, searched, ?_⟩
  have skipped : ∀ next, number + 1 ≤ next → next ≤ stop →
      (∀ other, number + 1 ≤ other → other < next →
        passesAt lines (fun text => !isBlankLine text) other = false) →
      BlockMarkup.clusterFrom (number + 1) (between lines (number + 1) stop) =
        BlockMarkup.clusterFrom next (between lines next stop) := by
    intro next after upTo fails
    refine clusterFrom_skip (Nat.succ_pos number) after upTo within fun other later earlier => ?_
    exact blank_of_not_filled (Nat.one_le_of_lt later) (by omega) (fails other later earlier)
  cases first with
  | none fails =>
    refine .nothing ?_
    rw [skipped stop before (Nat.le_refl stop) fun other after upTo => fails other after (by omega),
      between_eq_nil lines (Nat.le_refl stop)]
    rfl
  | some later inside passes fails =>
    rename_i next
    obtain ⟨text, there, _⟩ := exists_line (Nat.one_le_of_lt later) (by omega : next ≤ lines.length)
    rw [passesAt, there, Option.any_some, isBlankLine] at passes
    refine .filled later (by omega) there (fun blank => ?_) (skipped next later (by omega) fails)
    simp [blank] at passes

theorem clusterFrom_eq_ok (fits : lines.length < maxWord) (positive : 1 ≤ number)
    (within : stop ≤ lines.length + 1) :
    clusterFrom lines stop number =
      .ok (BlockMarkup.clusterFrom number (between lines number stop)) := by
  -- Each round of the loop leaves fewer lines before `stop`.
  induction left : stop - number using Nat.strongRecOn generalizing number with
  | ind left ih =>
    rw [clusterFrom]
    split
    · rename_i before
      obtain ⟨text, there, read⟩ := exists_line positive (by omega : number ≤ lines.length)
      rw [read, ok_bind, between_cons there before, BlockMarkup.clusterFrom]
      cases kind : Line.classify text with
      | property indent key value =>
        have later := ih (stop - (number + 1)) (by omega) (Nat.succ_pos number) rfl
        have isWord : number + 1 ≤ maxWord := by omega
        simp only [successor, if_pos isWord, ok_bind, later]
        rfl
      | blank =>
        obtain ⟨found, searched, below⟩ := filledBelow_eq_ok before within
        dsimp only
        rw [searched, ok_bind]
        cases below with
        | nothing empty =>
          rw [empty]
          rfl
        | filled later inside thereBelow filled same =>
          rename_i next lineBelow
          have rest := ih (stop - next) (by omega) (Nat.one_le_of_lt later) rfl
          dsimp only
          rw [line_eq_ok thereBelow, ok_bind, rest, same, between_cons thereBelow inside,
            BlockMarkup.clusterFrom]
          cases kindBelow : Line.classify lineBelow with
          | blank => exact absurd kindBelow filled
          | _ => rfl
      | _ => rfl
    · rename_i past
      rw [between_eq_nil lines (Nat.le_of_not_lt past)]
      rfl

theorem propertyCluster_eq_ok (fits : lines.length < maxWord) {start : Nat}
    (within : start ≤ lines.length) (stop : Nat) :
    propertyCluster lines start stop = .ok (BlockMarkup.propertyCluster lines start stop) := by
  have same : lines.take (min stop (lines.length + 1) - 1) = lines.take (stop - 1) := by
    rw [List.take_eq_take_iff]
    omega
  rw [propertyCluster, sum_eq_ok fits, ok_bind, sum_eq_ok (by omega), ok_bind,
    clusterFrom_eq_ok fits (Nat.succ_pos start) (Nat.min_le_right _ _), between, same]
  rfl

end BlockMarkup.Checked
