import BlockMarkup.Proofs.Style.Write
import Mathlib.Algebra.Ring.Int.Defs

namespace BlockMarkup.Style

variable {indent : Nat} {source : Text} {graph : Graph} {edit : Edit} {patch : Patch}

theorem lineAt?_of_pos {lines : List Text} {number : Nat} (positive : 1 ≤ number) :
    lineAt? lines number = lines[number - 1]? := by
  cases number with
  | zero => cases positive
  | succ index => rfl

theorem lineAt?_splitLines_pos {number : Nat} {line : Text}
    (there : lineAt? (splitLines source) number = some line) :
    1 ≤ number ∧ number ≤ lineCount source := by
  cases number with
  | zero => cases there
  | succ index =>
    obtain ⟨inside, _⟩ := List.getElem?_eq_some_iff.mp there
    exact ⟨Nat.succ_pos _, inside⟩

-- The patch puts the lines `added` in place of the lines `removed`.
structure Spliced (source : Text) (patch : Patch) (above removed added below : List Text) :
    Prop where
  before : splitLines source = above ++ (removed ++ below)
  after : patch.text = joinLines (above ++ (added ++ below))
  plain : ∀ line ∈ added, '\n' ∉ line
  delta : patch.delta = lineDelta source patch.text
  shiftFrom : patch.shiftFrom = above.length + removed.length + 1

namespace Spliced

variable {above removed added below : List Text} {number : Nat} {line : Text}

theorem lines (spliced : Spliced source patch above removed added below)
    (present : above ++ (added ++ below) ≠ []) :
    splitLines patch.text = above ++ (added ++ below) := by
  rw [spliced.after]
  exact splitLines_joinLines present (newline_notMem_written spliced.before spliced.plain)

theorem lineCount_before (spliced : Spliced source patch above removed added below) :
    lineCount source = above.length + removed.length + below.length := by
  simp [lineCount, spliced.before, Nat.add_assoc]

theorem lineCount_after (spliced : Spliced source patch above removed added below)
    (present : above ++ (added ++ below) ≠ []) :
    lineCount patch.text = above.length + added.length + below.length := by
  simp [lineCount, spliced.lines present, Nat.add_assoc]

theorem ne_nil (spliced : Spliced source patch above removed added below) (positive : 1 ≤ number)
    (inside : number ≤ lineCount source)
    (outside : number ≤ above.length ∨ above.length + removed.length < number) :
    above ++ (added ++ below) ≠ [] := by
  intro empty
  have total := spliced.lineCount_before
  have length := congrArg List.length empty
  simp only [List.length_append, List.length_nil] at length
  omega

theorem shiftLine_upTo (spliced : Spliced source patch above removed added below)
    (inside : number ≤ above.length + removed.length) : patch.shiftLine number = number := by
  have start := spliced.shiftFrom
  rw [Patch.shiftLine, if_neg (by omega)]

theorem shiftLine_above (spliced : Spliced source patch above removed added below)
    (inside : number ≤ above.length) : patch.shiftLine number = number :=
  spliced.shiftLine_upTo (Nat.le_add_right_of_le inside)

theorem shiftLine_below (spliced : Spliced source patch above removed added below)
    (past : above.length + removed.length < number) (inside : number ≤ lineCount source) :
    patch.shiftLine number = number - removed.length + added.length := by
  have start := spliced.shiftFrom
  have total := spliced.lineCount_before
  have after := spliced.lineCount_after (spliced.ne_nil (by omega) inside (.inr past))
  have delta : patch.delta = (added.length : Int) - removed.length := by
    rw [spliced.delta, lineDelta, after, total]
    omega
  rw [Patch.shiftLine, if_pos (by omega), delta]
  omega

theorem shiftLine_inRange (spliced : Spliced source patch above removed added below)
    (positive : 1 ≤ number) (inside : number ≤ lineCount source)
    (outside : number ≤ above.length ∨ above.length + removed.length < number) :
    1 ≤ patch.shiftLine number ∧ patch.shiftLine number ≤ lineCount patch.text := by
  have before := spliced.lineCount_before
  have after := spliced.lineCount_after (spliced.ne_nil positive inside outside)
  rcases outside with early | late
  · rw [spliced.shiftLine_above early]
    omega
  · rw [spliced.shiftLine_below late inside]
    omega

theorem lineAt?_shiftLine (spliced : Spliced source patch above removed added below)
    (positive : 1 ≤ number) (inside : number ≤ lineCount source)
    (outside : number ≤ above.length ∨ above.length + removed.length < number) :
    lineAt? (splitLines patch.text) (patch.shiftLine number) =
      lineAt? (splitLines source) number := by
  have total := spliced.lineCount_before
  rw [spliced.lines (spliced.ne_nil positive inside outside), spliced.before]
  rcases outside with early | late
  · have index : number - 1 < above.length := by omega
    rw [spliced.shiftLine_above early, lineAt?_of_pos positive, lineAt?_of_pos positive,
      List.getElem?_append_left index, List.getElem?_append_left index]
  · rw [spliced.shiftLine_below late inside, lineAt?_of_pos (by omega), lineAt?_of_pos positive,
      List.getElem?_append_right (by omega), List.getElem?_append_right (by omega),
      List.getElem?_append_right (by omega), List.getElem?_append_right (by omega)]
    congr 1
    omega

theorem origin (spliced : Spliced source patch above removed added below)
    (there : lineAt? (splitLines patch.text) number = some line) :
    (∃ old, 1 ≤ old ∧ old ≤ lineCount source ∧
        (old ≤ above.length ∨ above.length + removed.length < old) ∧
        patch.shiftLine old = number) ∨
      (∃ i, added[i]? = some line ∧ number = above.length + 1 + i) ∨
      (patch.text = [] ∧ number = 1 ∧ line = []) := by
  obtain ⟨positive, _⟩ := lineAt?_splitLines_pos there
  have total := spliced.lineCount_before
  by_cases empty : above ++ (added ++ below) = []
  · have text : patch.text = [] := by rw [spliced.after, empty]; rfl
    rw [text, lineAt?_of_pos positive] at there
    obtain ⟨index, found⟩ := List.getElem?_eq_some_iff.mp there
    have only : number - 1 = 0 := by
      change number - 1 < 1 at index
      omega
    simp only [only] at found
    exact .inr (.inr ⟨text, by omega, found.symm⟩)
  rw [spliced.lines empty, lineAt?_of_pos positive] at there
  by_cases early : number ≤ above.length
  · refine .inl ⟨number, positive, by omega, .inl early, spliced.shiftLine_above early⟩
  rw [List.getElem?_append_right (by omega)] at there
  by_cases fresh : number ≤ above.length + added.length
  · rw [List.getElem?_append_left (by omega)] at there
    exact .inr (.inl ⟨number - 1 - above.length, there, by omega⟩)
  rw [List.getElem?_append_right (by omega)] at there
  obtain ⟨index, _⟩ := List.getElem?_eq_some_iff.mp there
  have bound : number - added.length + removed.length ≤ lineCount source := by omega
  have late : above.length + removed.length < number - added.length + removed.length := by omega
  refine .inl ⟨number - added.length + removed.length, by omega, bound, .inr late, ?_⟩
  rw [spliced.shiftLine_below late bound]
  omega

end Spliced

def Written.toPatch (source : Text) (graph : Graph) (written : Written) : Patch :=
  ⟨written.text, graph, lineDelta source written.text, written.shiftFrom⟩

section parts

variable {header : Text} {above body blanks below : List Text}

theorem spliced_writeBlock
    (parts : Region.Parts (splitLines source) above header body blanks below) :
    Spliced source ((writeBlock indent source graph).toPatch source graph) above (header :: body)
      (blockLines header (graph.bodyLines indent)) (blanks ++ below) where
  before := by rw [parts.whole, List.cons_append]
  after := by rw [Written.toPatch, writeBlock_of_parts parts]
  plain := by
    refine newline_notMem_blockLines (newline_notMem_of_mem_splitLines (t := source) ?_)
    rw [parts.whole]
    simp
  delta := rfl
  shiftFrom := by
    rw [Written.toPatch, writeBlock_of_parts parts, List.length_cons]
    dsimp only
    omega

end parts

theorem spliced_inserted (absent : Region.first? source = none)
    (delta : patch.delta = lineDelta source patch.text) (filled : patch.graph.bodyLines indent ≠ [])
    (written : (⟨patch.text, patch.shiftFrom⟩ : Written) = writeBlock indent source patch.graph) :
    Spliced source patch ((splitLines source).take (insertionPoint (splitLines source))) []
      (blockLines styleHeader (patch.graph.bodyLines indent) ++
        separator ((splitLines source).drop (insertionPoint (splitLines source))))
      ((splitLines source).drop (insertionPoint (splitLines source))) := by
  rw [writeBlock_of_none absent, if_neg filled] at written
  obtain ⟨text, shiftFrom⟩ := Written.mk.inj written
  refine ⟨by simp, by simp [text], newline_notMem_newBlock _, delta, ?_⟩
  rw [shiftFrom, List.length_take, Nat.min_eq_left (insertionPoint_le _)]
  rfl

theorem lineDelta_trans (first second third : Text) :
    lineDelta first second + lineDelta second third = lineDelta first third := by
  unfold lineDelta
  omega

end BlockMarkup.Style
