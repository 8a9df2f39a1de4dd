import BlockMarkup.Proofs.Style.RoundTrip
import Mathlib.Order.Monotone.Basic

namespace BlockMarkup.Style

variable {f : Nat → Nat} {n : Nat} {line t : Text} {graph : Graph}

-- The line behind `f w` spaces when its own blanks are `w` wide.
def reindent (f : Nat → Nat) (line : Text) : Text :=
  spaces (f (StyleLine.indentWidth (line.takeWhile isBlank))) ++ trimStart line

namespace StyleLine

def reindent (f : Nat → Nat) : StyleLine → StyleLine
  | .nested indent selector => .nested (f indent) selector
  | line => line

end StyleLine

namespace Context

def reindent (f : Nat → Nat) : Context → Context
  | .block blockType label target opened =>
    .block blockType label target (opened.map fun part => (f part.1, part.2))
  | .raw selector target => .raw selector target

@[simp] theorem address_reindent (context : Context) :
    (context.reindent f).address = context.address := by
  cases context <;> rfl

end Context

namespace Reading

def reindent (f : Nat → Nat) (reading : Reading) : Reading :=
  { reading with context := reading.context.map (Context.reindent f) }

end Reading

def IsIdle (line : Text) : Prop :=
  trim line = [] ∨ trim line = ['}'] ∨ ['/', '/'] <+: trim line

theorem classify_idle (idle : IsIdle line) : StyleLine.classify line = .skipped := by
  have skips : (trim (dropReturn line) = [] || trim (dropReturn line) = ['}'] ||
      (dropStart? ['/', '/'] (trim (dropReturn line))).isSome) = true := by
    rw [trim_dropReturn]
    rcases idle with empty | brace | ⟨rest, comment⟩
    · simp [empty]
    · simp [brace]
    · simp [dropStart?_eq_some_iff.mpr comment.symm]
  rw [StyleLine.classify]
  exact if_pos skips

inductive Padded : List Text → List Text → Prop where
  | nil : Padded [] []
  | keep (line : Text) {lines longer : List Text} (rest : Padded lines longer) :
      Padded (line :: lines) (line :: longer)
  | idle {line : Text} {lines longer : List Text} (skipped : IsIdle line)
      (rest : Padded lines longer) : Padded lines (line :: longer)

theorem Padded.foldl_next {lines longer : List Text} (padded : Padded lines longer) :
    ∀ reading : Reading, longer.foldl Reading.next reading = lines.foldl Reading.next reading := by
  induction padded with
  | nil => exact fun _ => rfl
  | keep line _ ih => exact fun reading => ih (reading.next line)
  | idle skipped _ ih =>
    intro reading
    rw [List.foldl_cons, Reading.next, classify_idle skipped, Reading.read, ih]

theorem Padded.ofLines {lines longer : List Text} (padded : Padded lines longer) :
    Graph.ofLines longer = Graph.ofLines lines :=
  congrArg Reading.graph (padded.foldl_next .start)

instance {V E : Text → Text → Prop} {A : Address → Prop} [∀ name value, Decidable (V name value)]
    [DecidablePred A] [∀ name value, Decidable (E name value)] : DecidablePred (Graph.Each V A E) :=
  fun graph => decidable_of_iff
    ((∀ found ∈ graph.bindings, V found.name found.value) ∧
      (∀ rule ∈ graph.rules, A rule.address) ∧
      ∀ rule ∈ graph.rules, ∀ entry ∈ rule.properties.entries, E entry.1 entry.2)
    ⟨fun ⟨bindings, addresses, properties⟩ => ⟨bindings, addresses, properties⟩,
      fun ⟨bindings, addresses, properties⟩ => ⟨bindings, addresses, properties⟩⟩

instance (name value : Text) : Decidable (PlainPair name value) :=
  inferInstanceAs (Decidable ('\n' ∉ name ∧ '\n' ∉ value))

instance : DecidablePred Address.OneLine := fun address =>
  decidable_of_iff ('\n' ∉ address.blockType ∧ '\n' ∉ address.target ∧
      ∀ label ∈ address.label, '\n' ∉ label)
    ⟨fun ⟨blockType, target, label⟩ => ⟨blockType, target, label⟩,
      fun ⟨blockType, target, label⟩ => ⟨blockType, target, label⟩⟩

instance : DecidablePred StartsFilled := fun t =>
  inferInstanceAs (Decidable (∀ c ∈ t.head?, isBlank c = false))

-- Where two widths fall together, the pseudo-class leaves the part and belongs to the block.
example :
    (Graph.ofBody "core/card\n  .title\n    :hover\n      color: red".toList).rules.map
        (·.address.target) = ["title:hover".toList] ∧
      (Graph.ofBody "core/card\n  .title\n  :hover\n      color: red".toList).rules.map
        (·.address.target) = ["self:hover".toList] := by
  decide +kernel

end BlockMarkup.Style
