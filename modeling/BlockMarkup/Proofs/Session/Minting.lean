import BlockMarkup.Proofs.Annotation
import BlockMarkup.Proofs.Session.Scoping
import Mathlib.Data.List.Nodup

namespace BlockMarkup

open Identifier

def Operation.isNaming : Operation → Bool
  | .setCursor _ | .scopeBlock | .tagLine _ => true
  | _ => false

namespace Session

variable {compile : Compiler} {session after : Session compile} {operation : Operation}

def minted? (session : Session compile) : Operation → Option Text
  | .scopeBlock =>
    if (session.cursorBlock?.bind Block.label).isSome then none else session.scopeBlock.2.toOption
  | .tagLine line => (session.tagLine line).2.bind (dropStart? ">.".toList)
  | _ => none

def minted (session : Session compile) : List Operation → List Text
  | [] => []
  | operation :: rest => (session.minted? operation).toList ++ (session.step operation).1.minted rest

-- What one operation does to the identifiers: it takes none and leaves the text, or it takes the next one
-- and the text gains it.
inductive Mints (session : Session compile) (operation : Operation) : Prop
  | none (nothing : session.minted? operation = none)
      (source : (session.step operation).1.source = session.source)
  | next (taken : session.minted? operation = some (Identifier.next session.source))
      (gains : Gains (nextNumber session.source) session.source (session.step operation).1.source)

theorem scopeBlock_eq_error {refusal : EditError}
    (refused : session.scopeBlock = (after, .error refusal)) : after = session := by
  unfold scopeBlock at refused
  split at refused
  · cases refused
    rfl
  · split at refused
    · cases refused
      rfl
    split at refused
    · cases refused
    · dsimp only at refused
      split at refused
      · cases refused
      · cases refused
        rfl

theorem mints_scopeBlock (fits : nextNumber session.source ≤ maxWord) :
    session.Mints .scopeBlock := by
  cases answered : session.scopeBlock with
  | mk after answer =>
    have result : (session.step .scopeBlock).1 = after := congrArg Prod.fst answered
    cases answer with
    | error refusal =>
      apply Mints.none
      · simp [minted?, answered, Except.toOption]
      · rw [result, scopeBlock_eq_error answered]
    | ok label =>
      obtain ⟨block, located, _, ⟨given, same⟩ | ⟨unlabelled, rfl, changed, injected, same⟩⟩ :=
        scopeBlock_eq_ok answered
      · apply Mints.none
        · simp [minted?, located, given]
        · rw [result, same]
      · apply Mints.next
        · simp [minted?, located, unlabelled, answered, Except.toOption]
        · rw [result, same]
          exact Naming.injectLabel?_gains injected fits

theorem mints_tagLine (fits : nextNumber session.source ≤ maxWord) (line : Nat) :
    session.Mints (.tagLine line) := by
  cases injected : Naming.injectClass? session.source line (Identifier.next session.source) with
  | none =>
    apply Mints.none
    · simp [minted?, tagLine, injected]
    · simp [step, tagLine, injected]
  | some changed =>
    have gains := Naming.injectClass?_gains injected fits
    apply Mints.next
    · simp [minted?, tagLine, injected, Landing.target, dropStart?]
    · have result : (session.step (.tagLine line)).1 = session.commit changed := by
        simp [step, tagLine, injected]
      rw [result]
      exact gains

theorem mints_step (fits : nextNumber session.source ≤ maxWord) (naming : operation.isNaming = true) :
    session.Mints operation := by
  cases operation with
  | setCursor line => exact .none rfl rfl
  | scopeBlock => exact mints_scopeBlock fits
  | tagLine line => exact mints_tagLine fits line
  | replaceSource source => cases naming
  | setProperty key value => cases naming
  | applyStyle edit => cases naming
  | setStyle target property value => cases naming

theorem minted_run {operations : List Operation}
    (naming : ∀ operation ∈ operations, operation.isNaming = true)
    (room : (numbers session.source).length + operations.length ≤ maxWord) :
    ∃ fresh : List Nat, session.minted operations = fresh.map text ∧ fresh.Nodup ∧
      (∀ n ∈ fresh, n ∉ numbers session.source) ∧
      (numbers (session.run operations).source).Perm (fresh ++ numbers session.source) := by
  induction operations generalizing session with
  | nil => exact ⟨[], rfl, .nil, by simp, .refl _⟩
  | cons operation rest ih =>
    rw [List.length_cons] at room
    have fits : nextNumber session.source ≤ maxWord := nextNumber_le (by omega)
    have later : ∀ other ∈ rest, other.isNaming = true :=
      fun other member => naming other (List.mem_cons_of_mem _ member)
    cases mints_step fits (naming operation List.mem_cons_self) with
    | none nothing source =>
      have roomLater : (numbers (session.step operation).1.source).length + rest.length ≤ maxWord := by
        rw [source]
        omega
      obtain ⟨fresh, taken, distinct, unused, all⟩ := ih later roomLater
      rw [source] at unused all
      exact ⟨fresh, by rw [minted, nothing, taken]; rfl, distinct, unused, all⟩
    | next taken gains =>
      have one := gains.numbers_perm
      have roomLater : (numbers (session.step operation).1.source).length + rest.length ≤ maxWord := by
        rw [one.length_eq, List.length_cons]
        omega
      obtain ⟨fresh, more, distinct, unused, all⟩ := ih later roomLater
      refine ⟨nextNumber session.source :: fresh, ?_, ?_, ?_, ?_⟩
      · rw [minted, taken, more]
        rfl
      · refine List.nodup_cons.mpr ⟨fun member => ?_, distinct⟩
        exact unused _ member (one.mem_iff.mpr List.mem_cons_self)
      · intro n member
        rcases List.mem_cons.mp member with rfl | early
        · exact nextNumber_notMem session.source
        · exact fun found => unused n early (one.mem_iff.mpr (List.mem_cons_of_mem _ found))
      · exact (all.trans (one.append_left fresh)).trans List.perm_middle

-- A name that is given is new to the text and becomes one more of its identifiers, and the others stay as
-- they were. All names that a run gives are different ones, and different from those of the first text.
-- The texts are those that a machine can hold, with fewer characters than 64 bits count: a text that uses
-- up every number of 64 bits would leave none to give.
theorem minted_distinct (source : Text) (session : Session compile) :
    (∀ number changed, source.length < maxWord →
      (Naming.injectLabel? source number (Identifier.next source) = some changed ∨
        Naming.injectClass? source number (Identifier.next source) = some changed) →
      nextNumber source ∉ numbers source ∧
        (numbers changed).Perm (nextNumber source :: numbers source)) ∧
      ∀ operations : List Operation, (∀ operation ∈ operations, operation.isNaming = true) →
        session.source.length + operations.length ≤ maxWord →
        (session.minted operations).Nodup ∧
          ∃ fresh : List Nat, session.minted operations = fresh.map text ∧
            (∀ n ∈ fresh, n ∉ numbers session.source) ∧
            (numbers (session.run operations).source).Perm (fresh ++ numbers session.source) := by
  constructor
  · intro number changed room injected
    have fits : nextNumber source ≤ maxWord :=
      nextNumber_le (Nat.lt_of_le_of_lt (length_numbersFrom_le none source) room)
    refine ⟨nextNumber_notMem source, ?_⟩
    rcases injected with label | className
    · exact (Naming.injectLabel?_gains label fits).numbers_perm
    · exact (Naming.injectClass?_gains className fits).numbers_perm
  · intro operations naming room
    have fewer : (numbers session.source).length ≤ session.source.length :=
      length_numbersFrom_le none session.source
    have few : (numbers session.source).length + operations.length ≤ maxWord := by omega
    obtain ⟨fresh, taken, distinct, unused, all⟩ := minted_run naming few
    refine ⟨?_, fresh, taken, unused, all⟩
    rw [taken]
    exact List.Nodup.map text_injective distinct

def labelledPage : Session compileStyles :=
  start compileStyles "--- core/card\nHi\n--- core/card: s3\n<b class=\"x\">Bye</b>".toList
    Style.defaultIndent .default

def pageNaming : List Operation := [.scopeBlock, .tagLine 2, .setCursor 4, .scopeBlock, .tagLine 4]

theorem minted_distinct_labelledPage :
    (Naming.injectLabel? labelledPage.source 1 (Identifier.next labelledPage.source) =
        some "--- core/card: s4\nHi\n--- core/card: s3\n<b class=\"x\">Bye</b>".toList ∧
      (numbers "--- core/card: s4\nHi\n--- core/card: s3\n<b class=\"x\">Bye</b>".toList).Perm
        [4, 3]) ∧
      labelledPage.minted pageNaming = ["s4".toList, "s5".toList, "s6".toList] ∧
      (labelledPage.minted pageNaming).Nodup ∧
      (numbers (labelledPage.run pageNaming).source).Perm [4, 5, 6, 3] := by
  obtain ⟨texts, runs⟩ := minted_distinct labelledPage.source labelledPage
  have injected : Naming.injectLabel? labelledPage.source 1 (Identifier.next labelledPage.source) =
      some "--- core/card: s4\nHi\n--- core/card: s3\n<b class=\"x\">Bye</b>".toList := by
    decide +kernel
  have next : nextNumber labelledPage.source = 4 := by decide +kernel
  have before : numbers labelledPage.source = [3] := by decide +kernel
  have named : labelledPage.minted pageNaming = ["s4".toList, "s5".toList, "s6".toList] := by
    decide +kernel
  have naming : ∀ operation ∈ pageNaming, operation.isNaming = true := by decide
  obtain ⟨_, one⟩ := texts _ _ (by decide +kernel) (.inl injected)
  obtain ⟨distinct, fresh, taken, _, all⟩ :=
    runs pageNaming naming (by decide +kernel)
  have same : fresh = [4, 5, 6] :=
    List.map_injective_iff.mpr text_injective (taken.symm.trans named)
  rw [next, before] at one
  rw [same, before] at all
  exact ⟨⟨injected, one⟩, named, distinct, all⟩

end Session
end BlockMarkup
