import BlockMarkup.Proofs.Outline

namespace BlockMarkup

variable {lines : List Text} {number place : Nat} {blockType : Text}
variable {opened inner outer : List (Nat × Text)} {partner : Nat → Nat}

def OpensAt (lines : List Text) (number : Nat) (blockType : Text) : Prop :=
  blockType ≠ styleType ∧ ∃ label, Heads lines ⟨number, blockType, label⟩

def ClosesAt (lines : List Text) (number : Nat) (blockType : Text) : Prop :=
  (lineAt? lines number).map Line.classify = some (.close blockType)

def ClosingAt (lines : List Text) (number : Nat) : Prop := ∃ blockType, ClosesAt lines number blockType

def Crosses (start stop otherStart otherStop : Nat) : Prop :=
  start < otherStart ∧ otherStart < stop ∧ stop < otherStop

-- A choice of a header's line for the line of each closing tag.
structure WellNested (lines : List Text) (partner : Nat → Nat) : Prop where
  opens : ∀ number blockType, ClosesAt lines number blockType →
    partner number < number ∧ OpensAt lines (partner number) blockType
  once : ∀ first second, ClosingAt lines first → ClosingAt lines second →
    partner first = partner second → first = second
  nested : ∀ first second, ClosingAt lines first → ClosingAt lines second →
    ¬Crosses (partner first) first (partner second) second

theorem ClosesAt.unique {other : Text} (closes : ClosesAt lines number blockType)
    (again : ClosesAt lines number other) : other = blockType := by
  rw [ClosesAt, closes] at again
  cases again
  rfl

theorem not_opensAt_of_closesAt {other : Text} (closes : ClosesAt lines number blockType) :
    ¬OpensAt lines number other := by
  rintro ⟨_, label, heads⟩
  rw [Heads, closes] at heads
  cases heads

theorem OpensAt.not_closingAt (opens : OpensAt lines number blockType) : ¬ClosingAt lines number :=
  fun ⟨_, closes⟩ => not_opensAt_of_closesAt closes opens

theorem OpensAt.pos (opens : OpensAt lines number blockType) : 1 ≤ number := by
  obtain ⟨_, _, heads⟩ := opens
  exact heads.line_pos

theorem ClosingAt.pos (closing : ClosingAt lines number) : 1 ≤ number := by
  obtain ⟨_, closes⟩ := closing
  obtain ⟨line, there, _⟩ := Option.map_eq_some_iff.mp closes
  exact lineAt?_pos there

theorem ClosingAt.le_length (closing : ClosingAt lines number) : number ≤ lines.length := by
  obtain ⟨_, closes⟩ := closing
  obtain ⟨line, there, _⟩ := Option.map_eq_some_iff.mp closes
  exact (exists_lineAt?_iff.mp ⟨line, there⟩).2

def Available (lines : List Text) (number : Nat) (opened : List (Nat × Text)) (place : Nat)
    (blockType : Text) : Prop :=
  (place, blockType) ∈ opened ∨ number ≤ place ∧ OpensAt lines place blockType

-- Pairs for the closing tags from line `number` on. Of two tags, the later one has its header above the
-- header of the other, or below the other itself.
structure PairedFrom (lines : List Text) (number : Nat) (opened : List (Nat × Text))
    (partner : Nat → Nat) : Prop where
  opens : ∀ tag blockType, number ≤ tag → ClosesAt lines tag blockType →
    partner tag < tag ∧ Available lines number opened (partner tag) blockType
  apart : ∀ first second, number ≤ first → first < second → ClosingAt lines first →
    ClosingAt lines second → partner second < partner first ∨ first ≤ partner second

theorem pairedFrom_one_iff : PairedFrom lines 1 [] partner ↔ WellNested lines partner := by
  constructor
  · rintro ⟨opens, apart⟩
    refine ⟨fun tag blockType closes => ?_, fun first second one two same => ?_,
      fun first second one two => ?_⟩
    · obtain ⟨before, already | ⟨_, header⟩⟩ := opens tag blockType (ClosingAt.pos ⟨_, closes⟩) closes
      · cases already
      · exact ⟨before, header⟩
    · have below : ∀ tag, ClosingAt lines tag → partner tag < tag := fun tag ⟨_, closes⟩ =>
        (opens tag _ (ClosingAt.pos ⟨_, closes⟩) closes).1
      have firstBelow := below first one
      have secondBelow := below second two
      rcases Nat.lt_trichotomy first second with before | equal | after
      · have parted := apart first second one.pos before one two
        omega
      · exact equal
      · have parted := apart second first two.pos after two one
        omega
    · rintro ⟨start, inside, behind⟩
      have parted := apart first second one.pos behind one two
      omega
  · rintro ⟨opens, once, nested⟩
    refine ⟨fun tag blockType _ closes => ?_, fun first second _ before one two => ?_⟩
    · obtain ⟨below, header⟩ := opens tag blockType closes
      exact ⟨below, .inr ⟨header.pos, header⟩⟩
    · have different : partner first ≠ partner second := fun same =>
        Nat.ne_of_lt before (once first second one two same)
      have noCross := nested first second one two
      unfold Crosses at noCross
      omega

theorem pairedFrom_succ_iff {more : List (Nat × Text)} (noTag : ¬ClosingAt lines number)
    (same : ∀ place blockType, Available lines number opened place blockType ↔
      Available lines (number + 1) more place blockType) :
    PairedFrom lines number opened partner ↔ PairedFrom lines (number + 1) more partner := by
  have past : ∀ tag, ClosingAt lines tag → number ≤ tag → number + 1 ≤ tag := by
    intro tag closing behind
    refine Nat.lt_of_le_of_ne behind ?_
    rintro rfl
    exact noTag closing
  constructor
  · rintro ⟨opens, apart⟩
    refine ⟨fun tag blockType behind closes => ?_, fun first second behind => ?_⟩
    · rw [← same]
      exact opens tag blockType (Nat.le_of_succ_le behind) closes
    · exact apart first second (Nat.le_of_succ_le behind)
  · rintro ⟨opens, apart⟩
    refine ⟨fun tag blockType behind closes => ?_, fun first second behind before one two => ?_⟩
    · rw [same]
      exact opens tag blockType (past tag ⟨_, closes⟩ behind) closes
    · exact apart first second (past first one behind) before one two

theorem available_skip (noHeader : ∀ blockType, ¬OpensAt lines number blockType) (place : Nat)
    (blockType : Text) :
    Available lines number opened place blockType ↔
      Available lines (number + 1) opened place blockType := by
  refine or_congr_right (and_congr_left fun header => ?_)
  refine ⟨fun behind => Nat.lt_of_le_of_ne behind ?_, Nat.le_of_succ_le⟩
  rintro rfl
  exact noHeader blockType header

theorem available_push (opens : OpensAt lines number blockType) (place : Nat) (other : Text) :
    Available lines number opened place other ↔
      Available lines (number + 1) ((number, blockType) :: opened) place other := by
  unfold Available
  rw [List.mem_cons, Prod.mk.injEq]
  constructor
  · rintro (already | ⟨behind, header⟩)
    · exact .inl (.inr already)
    · rcases Nat.eq_or_lt_of_le behind with rfl | later
      · obtain ⟨_, label, heads⟩ := opens
        obtain ⟨_, otherLabel, otherHeads⟩ := header
        rw [Heads, heads] at otherHeads
        cases otherHeads
        exact .inl (.inl ⟨rfl, rfl⟩)
      · exact .inr ⟨later, header⟩
  · rintro ((⟨rfl, rfl⟩ | already) | ⟨later, header⟩)
    · exact .inr ⟨Nat.le_refl _, opens⟩
    · exact .inl already
    · exact .inr ⟨Nat.le_of_succ_le later, header⟩

theorem exists_pairedFrom_skip (noTag : ∀ blockType, ¬ClosesAt lines number blockType)
    (noHeader : ∀ blockType, ¬OpensAt lines number blockType) :
    (∃ partner, PairedFrom lines number opened partner) ↔
      ∃ partner, PairedFrom lines (number + 1) opened partner :=
  exists_congr fun _ =>
    pairedFrom_succ_iff (fun ⟨blockType, closes⟩ => noTag blockType closes) (available_skip noHeader)

theorem exists_pairedFrom_push (opens : OpensAt lines number blockType) :
    (∃ partner, PairedFrom lines number opened partner) ↔
      ∃ partner, PairedFrom lines (number + 1) ((number, blockType) :: opened) partner :=
  exists_congr fun _ => pairedFrom_succ_iff opens.not_closingAt (available_push opens)

theorem not_exists_pairedFrom (closes : ClosesAt lines number blockType)
    (absent : blockType ∉ opened.map Prod.snd) :
    ¬∃ partner, PairedFrom lines number opened partner := by
  rintro ⟨partner, opens, _⟩
  obtain ⟨below, already | ⟨behind, _⟩⟩ := opens number blockType (Nat.le_refl _) closes
  · exact absent (List.mem_map.mpr ⟨_, already, rfl⟩)
  · exact absurd below (Nat.not_lt.mpr behind)

theorem pairedFrom_of_length_lt (past : lines.length < number) : PairedFrom lines number opened id := by
  have noTag : ∀ tag, number ≤ tag → ¬ClosingAt lines tag := by
    intro tag behind closing
    have within := closing.le_length
    omega
  refine ⟨fun tag blockType behind closes => ?_, fun first second behind _ one _ => ?_⟩
  · exact absurd ⟨blockType, closes⟩ (noTag tag behind)
  · exact absurd one (noTag first behind)

structure Stacked (number : Nat) (opened : List (Nat × Text)) : Prop where
  ordered : opened.Pairwise fun inner outer => outer.1 < inner.1
  above : ∀ block ∈ opened, block.1 < number

namespace Stacked

theorem nil : Stacked number [] := ⟨.nil, by simp⟩

theorem succ (stacked : Stacked number opened) : Stacked (number + 1) opened :=
  ⟨stacked.ordered, fun block member => Nat.lt_succ_of_lt (stacked.above block member)⟩

theorem push (stacked : Stacked number opened) (blockType : Text) :
    Stacked (number + 1) ((number, blockType) :: opened) := by
  refine ⟨.cons stacked.above stacked.ordered, fun block member => ?_⟩
  rcases List.mem_cons.mp member with rfl | inside
  · exact Nat.lt_succ_self number
  · exact Nat.lt_succ_of_lt (stacked.above block inside)

variable (stacked : Stacked number (inner ++ (place, blockType) :: outer))
include stacked

theorem outer_below : ∀ block ∈ outer, block.1 < place :=
  (List.pairwise_cons.mp (List.pairwise_append.mp stacked.ordered).2.1).1

theorem place_below : place < number := stacked.above (place, blockType) (by simp)

theorem tail : Stacked (number + 1) outer := by
  refine ⟨(List.pairwise_cons.mp (List.pairwise_append.mp stacked.ordered).2.1).2, ?_⟩
  intro block member
  exact Nat.lt_succ_of_lt (Nat.lt_trans (stacked.outer_below block member) stacked.place_below)

theorem mem_outer {block : Nat × Text} (member : block ∈ inner ++ (place, blockType) :: outer)
    (below : block.1 < place) : block ∈ outer := by
  rcases List.mem_append.mp member with inside | here
  · have above := (List.pairwise_append.mp stacked.ordered).2.2 block inside (place, blockType)
      List.mem_cons_self
    exact absurd below (Nat.lt_asymm above)
  · rcases List.mem_cons.mp here with rfl | inside
    · exact absurd below (Nat.lt_irrefl _)
    · exact inside

theorem le_place (innermost : blockType ∉ inner.map Prod.snd) {other : Nat}
    (member : (other, blockType) ∈ inner ++ (place, blockType) :: outer) : other ≤ place := by
  rcases List.mem_append.mp member with inside | here
  · exact absurd (List.mem_map.mpr ⟨_, inside, rfl⟩) innermost
  · rcases List.mem_cons.mp here with same | inside
    · cases same
      exact Nat.le_refl _
    · exact Nat.le_of_lt (stacked.outer_below _ inside)

-- Whatever block a closing tag is paired with, the innermost one of its type leaves at least as many
-- blocks open for the tags that follow.
theorem exists_pairedFrom_iff (innermost : blockType ∉ inner.map Prod.snd)
    (closes : ClosesAt lines number blockType) :
    (∃ partner, PairedFrom lines number (inner ++ (place, blockType) :: outer) partner) ↔
      ∃ partner, PairedFrom lines (number + 1) outer partner := by
  have placed := stacked.place_below
  constructor
  · rintro ⟨partner, opens, apart⟩
    refine ⟨partner, fun tag other behind closesTag => ?_, fun first second behind =>
      apart first second (Nat.le_of_succ_le behind)⟩
    obtain ⟨below, header⟩ := opens tag other (Nat.le_of_succ_le behind) closesTag
    refine ⟨below, ?_⟩
    rcases header with already | ⟨later, header⟩
    · -- The tag here has a header at or above `place`, so the later tag has one above that.
      obtain ⟨here, mine | ⟨past, _⟩⟩ := opens number blockType (Nat.le_refl _) closes
      · have notInside : partner number ≤ place := stacked.le_place innermost mine
        have above : partner tag < number := stacked.above _ already
        have higher : partner tag < place := by
          rcases apart number tag (Nat.le_refl _) behind ⟨_, closes⟩ ⟨_, closesTag⟩ with up | down
          · exact Nat.lt_of_lt_of_le up notInside
          · exact absurd above (Nat.not_lt.mpr down)
        exact .inl (stacked.mem_outer already higher)
      · exact absurd here (Nat.not_lt.mpr past)
    · refine .inr ⟨Nat.lt_of_le_of_ne later ?_, header⟩
      rintro same
      exact not_opensAt_of_closesAt (same ▸ closes) header
  · rintro ⟨partner, opens, apart⟩
    have later : ∀ tag, number < tag → Function.update partner number place tag = partner tag :=
      fun tag behind => Function.update_of_ne (Nat.ne_of_gt behind) place partner
    have here : Function.update partner number place number = place :=
      Function.update_self number place partner
    refine ⟨Function.update partner number place, fun tag other behind closesTag => ?_,
      fun first second behind before one two => ?_⟩
    · rcases Nat.eq_or_lt_of_le behind with rfl | past
      · rw [here, closes.unique closesTag]
        exact ⟨placed, .inl (by simp)⟩
      · rw [later tag past]
        obtain ⟨below, already | ⟨behind, header⟩⟩ := opens tag other past closesTag
        · exact ⟨below, .inl (by simp [already])⟩
        · exact ⟨below, .inr ⟨Nat.le_of_succ_le behind, header⟩⟩
    · rw [later second (Nat.lt_of_le_of_lt behind before)]
      rcases Nat.eq_or_lt_of_le behind with rfl | past
      · obtain ⟨other, closesSecond⟩ := two
        obtain ⟨_, already | ⟨behind, _⟩⟩ := opens second other before closesSecond
        · rw [here]
          exact .inl (stacked.outer_below _ already)
        · exact .inr (Nat.le_of_succ_le behind)
      · rw [later first past]
        exact apart first second past before one two

end Stacked

theorem closeBlock?_eq_some_iff {types outer : List Text} :
    closeBlock? blockType types = some outer ↔
      ∃ inner, types = inner ++ blockType :: outer ∧ blockType ∉ inner := by
  induction types with
  | nil => simp [closeBlock?]
  | cons innermost types ih =>
    rw [closeBlock?]
    split
    · rename_i same
      subst same
      rw [Option.some.injEq]
      constructor
      · rintro rfl
        exact ⟨[], rfl, List.not_mem_nil⟩
      · rintro ⟨inner, cut, absent⟩
        cases inner with
        | nil => exact (List.cons.inj cut).2
        | cons first inner =>
          rw [List.cons_append, List.cons.injEq] at cut
          exact absurd (by simp [cut.1]) absent
    · rename_i other
      rw [ih]
      constructor
      · rintro ⟨inner, rfl, absent⟩
        exact ⟨innermost :: inner, rfl, by simp [absent, Ne.symm other]⟩
      · rintro ⟨inner, cut, absent⟩
        cases inner with
        | nil => exact absurd (List.cons.inj cut).1 other
        | cons first inner =>
          rw [List.cons_append, List.cons.injEq] at cut
          exact ⟨inner, cut.2, fun inside => absent (List.mem_cons_of_mem _ inside)⟩

theorem closeBlock?_eq_none_iff {types : List Text} :
    closeBlock? blockType types = none ↔ blockType ∉ types := by
  induction types with
  | nil => simp [closeBlock?]
  | cons innermost types ih =>
    rw [closeBlock?]
    split
    · rename_i same
      simp [same]
    · rename_i other
      simp [ih, Ne.symm other]

theorem closeBlock?_map_eq_some {types : List Text}
    (found : closeBlock? blockType (opened.map Prod.snd) = some types) :
    ∃ inner place outer, opened = inner ++ (place, blockType) :: outer ∧
      types = outer.map Prod.snd ∧ blockType ∉ inner.map Prod.snd := by
  obtain ⟨_, cut, absent⟩ := closeBlock?_eq_some_iff.mp found
  obtain ⟨inner, back, rfl, rfl, later⟩ := List.map_eq_append_iff.mp cut
  obtain ⟨⟨place, _⟩, outer, rfl, rfl, rfl⟩ := List.map_eq_cons_iff.mp later
  exact ⟨inner, place, outer, rfl, rfl, absent⟩

-- That a diagnostic is about a closing tag without a block is read from its message.
def NoStrayClose (diagnostics : List Diagnostic) : Prop :=
  ∀ found ∈ diagnostics, ¬"has no open block".toList <:+: found.message

theorem noStrayClose_cons {found : Diagnostic} {diagnostics : List Diagnostic} :
    NoStrayClose (found :: diagnostics) ↔
      ¬"has no open block".toList <:+: found.message ∧ NoStrayClose diagnostics :=
  List.forall_mem_cons

theorem strayCloseMessage_reports (blockType : Text) :
    "has no open block".toList <:+: strayCloseMessage blockType := by
  have tail : "has no open block".toList <:+ "' has no open block".toList := by decide
  exact (tail.trans (List.suffix_append _ _)).isInfix

theorem laterStyleMessage_silent : ¬"has no open block".toList <:+: laterStyleMessage := by
  intro inside
  have letter : 'p' ∈ laterStyleMessage := inside.subset (by decide)
  exact absurd letter (by decide)

theorem noStrayClose_warningsFrom_iff (above rest : List Text) (opened : List (Nat × Text))
    (stacked : Stacked (above.length + 1) opened) (styleSeen : Bool) :
    NoStrayClose (warningsFrom (above.length + 1) (opened.map Prod.snd) styleSeen rest) ↔
      ∃ partner, PairedFrom (above ++ rest) (above.length + 1) opened partner := by
  induction rest generalizing above opened styleSeen with
  | nil =>
    have past : (above ++ []).length < above.length + 1 := by simp
    exact iff_of_true (by simp [NoStrayClose, warningsFrom]) ⟨id, pairedFrom_of_length_lt past⟩
  | cons line rest ih =>
    have there : lineAt? (above ++ line :: rest) (above.length + 1) = some line := by simp [lineAt?]
    have later := ih (above ++ [line])
    rw [List.length_append, List.length_singleton, List.append_assoc, List.singleton_append] at later
    generalize above ++ line :: rest = lines at there later ⊢
    generalize above.length + 1 = number at there later stacked ⊢
    have closesAt : ∀ blockType, ClosesAt lines number blockType ↔
        Line.classify line = .close blockType := by simp [ClosesAt, there]
    have headsAt : ∀ blockType label, Heads lines ⟨number, blockType, label⟩ ↔
        Line.classify line = .header blockType label := by simp [Heads, there]
    -- A line that opens and closes nothing changes neither the stack nor the pairs.
    have skip : (∀ blockType, ¬ClosesAt lines number blockType) →
        (∀ blockType, ¬OpensAt lines number blockType) → ∀ styleSeen,
        (NoStrayClose (warningsFrom (number + 1) (opened.map Prod.snd) styleSeen rest) ↔
          ∃ partner, PairedFrom lines number opened partner) := by
      intro noTag noHeader styleSeen
      rw [later opened stacked.succ styleSeen, exists_pairedFrom_skip noTag noHeader]
    rw [warningsFrom]
    cases kind : Line.classify line with
    | header blockType label =>
      have noTag : ∀ other, ¬ClosesAt lines number other := by simp [closesAt, kind]
      dsimp only
      split
      · rename_i style
        have noHeader : ∀ other, ¬OpensAt lines number other := by
          rintro other ⟨ordinary, label, heads⟩
          rw [headsAt, kind] at heads
          cases heads
          exact ordinary style
        split
        · rw [noStrayClose_cons, and_iff_right laterStyleMessage_silent]
          exact skip noTag noHeader true
        · exact skip noTag noHeader true
      · rename_i ordinary
        have opens : OpensAt lines number blockType := ⟨ordinary, label, (headsAt _ _).mpr kind⟩
        rw [exists_pairedFrom_push opens, ← later _ (stacked.push blockType) styleSeen,
          List.map_cons]
    | close blockType =>
      have closes : ClosesAt lines number blockType := (closesAt blockType).mpr kind
      dsimp only
      split
      · rename_i types found
        obtain ⟨inner, place, outer, rfl, rfl, innermost⟩ := closeBlock?_map_eq_some found
        rw [later outer stacked.tail styleSeen, stacked.exists_pairedFrom_iff innermost closes]
      · rename_i none
        rw [noStrayClose_cons]
        exact iff_of_false (fun quiet => quiet.1 (strayCloseMessage_reports blockType))
          (not_exists_pairedFrom closes (closeBlock?_eq_none_iff.mp none))
    | property indent key value =>
      exact skip (by simp [closesAt, kind]) (by simp [OpensAt, headsAt, kind]) styleSeen
    | blank => exact skip (by simp [closesAt, kind]) (by simp [OpensAt, headsAt, kind]) styleSeen
    | content => exact skip (by simp [closesAt, kind]) (by simp [OpensAt, headsAt, kind]) styleSeen

-- No closing tag is reported exactly when there is a way to pair them all.
theorem noStrayClose_iff_wellNested (source : Text) :
    NoStrayClose (compileStyles source).diagnostics ↔
      ∃ partner, WellNested (splitLines source) partner := by
  change NoStrayClose (warningsFrom 1 [] false (splitLines source)) ↔ _
  rw [← exists_congr fun _ => pairedFrom_one_iff]
  exact noStrayClose_warningsFrom_iff [] (splitLines source) [] .nil false

example :
    warnings "--- core/card\n--- core/text\n--- /core/card\n--- /core/text".toList =
        [⟨.warning, 4, strayCloseMessage "core/text".toList⟩] := by
  decide

end BlockMarkup
