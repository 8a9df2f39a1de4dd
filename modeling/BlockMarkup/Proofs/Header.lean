import BlockMarkup.Naming
import BlockMarkup.Proofs.Lines

namespace BlockMarkup

variable {t line blockType tail label : Text}

theorem isTypeChar_colon : Line.isTypeChar ':' = false := by decide

structure Opens (t blockType tail : Text) : Prop where
  written : ∃ blanks, blanks ≠ [] ∧ (∀ c ∈ blanks, isBlank c = true) ∧
    t = '-' :: '-' :: '-' :: (blanks ++ (blockType ++ tail))
  named : ∃ c rest, blockType = c :: rest ∧ Line.isTypeStart c = true ∧
    ∀ d ∈ rest, Line.isTypeChar d = true
  stop : ∀ c ∈ tail.head?, Line.isTypeChar c = false

theorem takeType?_eq_some_iff : Line.takeType? t = some (blockType, tail) ↔
    t = blockType ++ tail ∧
      (∃ c rest, blockType = c :: rest ∧ Line.isTypeStart c = true ∧
        ∀ d ∈ rest, Line.isTypeChar d = true) ∧
      ∀ c ∈ tail.head?, Line.isTypeChar c = false := by
  constructor
  · intro taken
    cases t with
    | nil => cases taken
    | cons c rest =>
      rw [Line.takeType?] at taken
      split at taken
      · rename_i start
        cases taken
        refine ⟨by simp, ⟨c, _, rfl, start, fun d member => List.mem_takeWhile_imp member⟩, ?_⟩
        intro d first
        have kept := List.head?_dropWhile_not Line.isTypeChar rest
        rw [Option.mem_def.mp first] at kept
        simpa using kept
      · cases taken
  · rintro ⟨rfl, ⟨c, rest, rfl, start, chars⟩, stop⟩
    obtain ⟨taken, left⟩ := takeWhile_append_stop chars stop
    rw [List.cons_append, Line.takeType?, if_pos start, taken, left]

theorem afterDashes?_eq_some_iff {name : Text} : Line.afterDashes? t = some name ↔
    ∃ blanks, blanks ≠ [] ∧ (∀ c ∈ blanks, isBlank c = true) ∧ StartsFilled name ∧
      t = '-' :: '-' :: '-' :: (blanks ++ name) := by
  constructor
  · intro found
    unfold Line.afterDashes? at found
    split at found
    · rename_i c rest dashes
      split at found
      · rename_i blank
        cases found
        refine ⟨c :: rest.takeWhile isBlank, List.cons_ne_nil _ _, ?_, startsFilled_trimStart rest, ?_⟩
        · intro d member
          rcases List.mem_cons.mp member with rfl | later
          · exact blank
          · exact List.mem_takeWhile_imp later
        · have cut : rest.takeWhile isBlank ++ trimStart rest = rest := List.takeWhile_append_dropWhile
          simp [dropStart?_eq_some_iff.mp dashes, cut]
      · cases found
    · cases found
  · rintro ⟨blanks, present, blank, starts, rfl⟩
    obtain ⟨c, rest, rfl⟩ := List.exists_cons_of_ne_nil present
    have dashes : dropStart? ['-', '-', '-'] ('-' :: '-' :: '-' :: (c :: rest ++ name)) =
        some (c :: (rest ++ name)) := dropStart?_eq_some_iff.mpr rfl
    have later : ∀ d ∈ rest, isBlank d = true := fun d member => blank d (by simp [member])
    rw [Line.afterDashes?, dashes]
    dsimp only
    rw [if_pos (blank c (by simp)), trimStart_append_blanks later, trimStart_eq_self starts]

theorem header?_eq_header_iff {label : Option Text} :
    Line.header? t = some (.header blockType label) ↔
      ∃ tail, Opens t blockType tail ∧ Line.labelAfter? tail = some label := by
  constructor
  · intro read
    unfold Line.header? at read
    split at read
    · cases read
    · split at read
      · cases read
      · obtain ⟨_, _, kind⟩ := Option.map_eq_some_iff.mp read
        cases kind
    · rename_i name _ dashes
      split at read
      · cases read
      · rename_i taken
        obtain ⟨found, after, kind⟩ := Option.map_eq_some_iff.mp read
        cases kind
        obtain ⟨blanks, present, blank, _, rfl⟩ := afterDashes?_eq_some_iff.mp dashes
        obtain ⟨rfl, named, stop⟩ := takeType?_eq_some_iff.mp taken
        exact ⟨_, ⟨⟨blanks, present, blank, rfl⟩, named, stop⟩, after⟩
  · rintro ⟨tail, ⟨⟨blanks, present, blank, rfl⟩, named, stop⟩, after⟩
    have taken : Line.takeType? (blockType ++ tail) = some (blockType, tail) :=
      takeType?_eq_some_iff.mpr ⟨rfl, named, stop⟩
    obtain ⟨c, rest, rfl, start, _⟩ := named
    have filled : isBlank c = false := isBlank_of_class isTypeStart_ofNat_blankCodes start
    have dashes : Line.afterDashes? ('-' :: '-' :: '-' :: (blanks ++ (c :: rest ++ tail))) =
        some (c :: rest ++ tail) :=
      afterDashes?_eq_some_iff.mpr ⟨blanks, present, blank, startsFilled_cons.mpr filled, rfl⟩
    unfold Line.header?
    split
    · rename_i none
      rw [dashes] at none
      cases none
    · rename_i slash
      rw [dashes] at slash
      cases slash
      cases start
    · rename_i name _ found
      rw [dashes, Option.some.injEq] at found
      subst found
      rw [taken]
      simp [after]

-- What can stand behind a block type, and the label in it: blanks, or a colon and any text. Neither
-- the type nor the gap has a colon, so it is the first one of the line.
inductive Labels : Text → Option Text → Prop where
  | bare {blanks : Text} (blank : ∀ c ∈ blanks, isBlank c = true) : Labels blanks none
  | colon {gap : Text} (blank : ∀ c ∈ gap, isBlank c = true) (text : Text) :
    Labels (gap ++ ':' :: text) (if trim text = [] then none else some (trim text))

theorem labelAfter?_eq_some_iff {label : Option Text} (plain : '\n' ∉ tail) :
    Line.labelAfter? tail = some label ↔ Labels tail label := by
  constructor
  · intro read
    obtain ⟨gap, cut, blank⟩ := exists_trimStart tail
    unfold Line.labelAfter? at read
    split at read
    · rename_i nothing
      cases read
      rw [nothing, List.append_nil] at cut
      exact .bare (cut ▸ blank)
    · rename_i text colon
      dsimp only at read
      split at read
      · cases read
      · cases read
        rw [cut, colon]
        exact .colon blank text
    · cases read
  · intro labels
    cases labels with
    | bare blank =>
      have nothing : trimStart tail = [] := List.dropWhile_eq_nil_iff.mpr blank
      rw [Line.labelAfter?, nothing]
    | colon blank text =>
      rename_i gap
      have oneLine : '\n' ∉ trim text := fun member => plain (by simp [mem_of_mem_trim member])
      rw [Line.labelAfter?, trimStart_append_blanks blank,
        trimStart_eq_self (startsFilled_cons.mpr (by rfl))]
      simp [oneLine]

theorem labelAfter?_isSome_iff (plain : '\n' ∉ t) : (Line.labelAfter? t).isSome = true ↔
    (∀ c ∈ t, isBlank c = true) ∨
      ∃ gap text, (∀ c ∈ gap, isBlank c = true) ∧ t = gap ++ ':' :: text := by
  rw [Option.isSome_iff_exists]
  simp only [labelAfter?_eq_some_iff plain]
  constructor
  · rintro ⟨label, blank | ⟨blank, text⟩⟩
    · exact .inl blank
    · exact .inr ⟨_, text, blank, rfl⟩
  · rintro (blank | ⟨gap, text, blank, rfl⟩)
    · exact ⟨none, .bare blank⟩
    · exact ⟨_, .colon blank text⟩

def OpensBoundary (t : Text) : Prop :=
  ∃ blanks slash c chars, blanks ≠ [] ∧ (∀ d ∈ blanks, isBlank d = true) ∧
    (slash = [] ∨ slash = ['/']) ∧ Line.isTypeStart c = true ∧ (∀ d ∈ chars, Line.isTypeChar d = true) ∧
    t = '-' :: '-' :: '-' :: (blanks ++ (slash ++ c :: chars))

theorem OpensBoundary.last (opens : OpensBoundary t) (last : t.getLast? = some c) :
    Line.isTypeStart c = true ∨ Line.isTypeChar c = true := by
  obtain ⟨blanks, slash, first, chars, _, _, _, start, named, rfl⟩ := opens
  have shape : '-' :: '-' :: '-' :: (blanks ++ (slash ++ first :: chars)) =
      ('-' :: '-' :: '-' :: (blanks ++ slash)) ++ first :: chars := by simp
  rw [shape, List.getLast?_append_of_ne_nil _ (List.cons_ne_nil first chars)] at last
  rcases List.mem_cons.mp (List.mem_of_getLast? last) with rfl | later
  · exact .inl start
  · exact .inr (named c later)

theorem header?_isSome_iff : (Line.header? t).isSome = true ↔
    ∃ front tail, t = front ++ tail ∧ OpensBoundary front ∧
      (∀ c ∈ tail.head?, Line.isTypeChar c = false) ∧ (Line.labelAfter? tail).isSome = true := by
  constructor
  · intro read
    unfold Line.header? at read
    split at read
    · cases read
    · rename_i name dashes
      obtain ⟨blanks, present, blank, _, rfl⟩ := afterDashes?_eq_some_iff.mp dashes
      split at read
      · cases read
      · rename_i taken
        obtain ⟨rfl, ⟨c, chars, rfl, start, named⟩, stop⟩ := takeType?_eq_some_iff.mp taken
        rw [Option.isSome_map] at read
        exact ⟨_, _, by simp, ⟨blanks, ['/'], c, chars, present, blank, .inr rfl, start, named, rfl⟩, stop,
          read⟩
    · rename_i name _ dashes
      obtain ⟨blanks, present, blank, _, rfl⟩ := afterDashes?_eq_some_iff.mp dashes
      split at read
      · cases read
      · rename_i taken
        obtain ⟨rfl, ⟨c, chars, rfl, start, named⟩, stop⟩ := takeType?_eq_some_iff.mp taken
        rw [Option.isSome_map] at read
        exact ⟨_, _, by simp, ⟨blanks, [], c, chars, present, blank, .inl rfl, start, named, rfl⟩, stop,
          read⟩
  · rintro ⟨front, tail, rfl, ⟨blanks, slash, c, chars, present, blank, slashes, start, named, rfl⟩, stop,
      read⟩
    have taken : Line.takeType? (c :: (chars ++ tail)) = some (c :: chars, tail) :=
      takeType?_eq_some_iff.mpr ⟨rfl, ⟨c, chars, rfl, start, named⟩, stop⟩
    rcases slashes with rfl | rfl
    · have filled : isBlank c = false := isBlank_of_class isTypeStart_ofNat_blankCodes start
      have noSlash : c ≠ '/' := by
        rintro rfl
        cases start
      have dashes : Line.afterDashes? ('-' :: '-' :: '-' :: (blanks ++ ([] ++ c :: chars)) ++ tail) =
          some (c :: (chars ++ tail)) :=
        afterDashes?_eq_some_iff.mpr ⟨blanks, present, blank, startsFilled_cons.mpr filled, by simp⟩
      rw [Line.header?, dashes]
      simp [noSlash, taken, read]
    · have dashes : Line.afterDashes? ('-' :: '-' :: '-' :: (blanks ++ (['/'] ++ c :: chars)) ++ tail) =
          some ('/' :: c :: (chars ++ tail)) :=
        afterDashes?_eq_some_iff.mpr ⟨blanks, present, blank, startsFilled_cons.mpr rfl, by simp⟩
      rw [Line.header?, dashes]
      simp [taken, read]

namespace Opens

theorem type_present (opens : Opens t blockType tail) : blockType ≠ [] := by
  obtain ⟨c, rest, rfl, _⟩ := opens.named
  exact List.cons_ne_nil c rest

theorem type_solid (opens : Opens t blockType tail) : EndsFilled blockType := by
  obtain ⟨c, rest, rfl, start, chars⟩ := opens.named
  intro d last
  rcases List.mem_cons.mp (List.mem_of_getLast? last) with rfl | inside
  · exact isBlank_of_class isTypeStart_ofNat_blankCodes start
  · exact isBlank_of_class isTypeChar_ofNat_blankCodes (chars d inside)

theorem type_noColon (opens : Opens t blockType tail) : ':' ∉ blockType := by
  obtain ⟨c, rest, rfl, start, chars⟩ := opens.named
  intro member
  rcases List.mem_cons.mp member with rfl | inside
  · cases start
  · have char := chars ':' inside
    rw [isTypeChar_colon] at char
    cases char

theorem retailed (opens : Opens t blockType tail) :
    ∃ front, t = front ++ tail ∧ EndsFilled front ∧ front.getLast? ≠ some ':' ∧
      ∀ other, (∀ c ∈ other.head?, Line.isTypeChar c = false) →
        Opens (front ++ other) blockType other := by
  obtain ⟨blanks, present, blank, rfl⟩ := opens.written
  refine ⟨('-' :: '-' :: '-' :: blanks) ++ blockType, by simp, ?_, ?_, fun other stop => ?_⟩
  · exact opens.type_solid.append opens.type_present
  · intro last
    rw [List.getLast?_append_of_ne_nil _ opens.type_present] at last
    exact opens.type_noColon (List.mem_of_getLast? last)
  · exact ⟨⟨blanks, present, blank, by simp⟩, opens.named, stop⟩

end Opens

theorem trimEnd_of_unlabelled (unlabelled : Line.labelAfter? tail = some none) :
    trimEnd tail = [] ∨
      ∃ gap, (∀ c ∈ gap, isBlank c = true) ∧ trimEnd tail = gap ++ [':'] := by
  obtain ⟨gap, cut, blank⟩ := exists_trimStart tail
  unfold Line.labelAfter? at unlabelled
  split at unlabelled
  · rename_i nothing
    rw [nothing, List.append_nil] at cut
    left
    rw [cut]
    exact trimEnd_eq_nil blank
  · rename_i text colon
    dsimp only at unlabelled
    split at unlabelled
    · cases unlabelled
    · split at unlabelled
      · rename_i empty
        right
        refine ⟨gap, blank, ?_⟩
        have whole : tail = (gap ++ [':']) ++ text := by
          rw [colon] at cut
          simpa using cut
        have ends : EndsFilled (gap ++ [':']) := endsFilled_concat.mpr rfl
        have trimmed := trimEnd_of_blanks ends (blank_of_trim_eq_nil empty)
        rwa [← whole] at trimmed
      · cases unlabelled
  · cases unlabelled

theorem labelAfter?_colon {gap text : Text} (blank : ∀ c ∈ gap, isBlank c = true)
    (trims : trim text = label) (present : label ≠ []) (plain : '\n' ∉ label) :
    Line.labelAfter? (gap ++ ':' :: text) = some (some label) := by
  have starts : trimStart (gap ++ ':' :: text) = ':' :: text := by
    rw [trimStart_append_blanks blank]
    exact trimStart_eq_self (startsFilled_cons.mpr rfl)
  simp [Line.labelAfter?, starts, trims, plain, present]

theorem isTypeChar_before_colon {gap : Text} (blank : ∀ c ∈ gap, isBlank c = true) (text : Text) :
    ∀ c ∈ (gap ++ ':' :: text).head?, Line.isTypeChar c = false := by
  intro c first
  cases gap with
  | nil =>
    cases first
    exact isTypeChar_colon
  | cons d rest =>
    cases first
    exact outside_of_isBlank isTypeChar_ofNat_blankCodes (blank c List.mem_cons_self)

-- A colon ends the line, with no label after it. Such a header counts as one without a label.
def Dangling (line : Text) : Prop := (trimEnd line).getLast? = some ':'

instance : DecidablePred Dangling := fun line =>
  inferInstanceAs (Decidable ((trimEnd line).getLast? = some ':'))

-- What a header is read with as its label after `label` has been written behind it.
def labelShown (line label : Text) : Text := if Dangling line then ':' :: ' ' :: label else label

theorem header?_labelled (unlabelled : Line.header? t = some (.header blockType none))
    (present : label ≠ []) (trimmed : trim label = label) (plain : '\n' ∉ label) :
    Line.header? (trimEnd t ++ ':' :: ' ' :: label) =
      some (.header blockType (some (labelShown t label))) := by
  obtain ⟨tail, opens, after⟩ := header?_eq_header_iff.mp unlabelled
  obtain ⟨front, rfl, filled, noColon, retailed⟩ := opens.retailed
  obtain ⟨starts, ends⟩ := trim_eq_self_iff.mp trimmed
  have blank : ∀ c ∈ [' '], isBlank c = true := by simp [isBlank]
  have whole : trim (' ' :: label) = label := by
    rw [← List.singleton_append, trim_append_blanks blank, trimmed]
  have read : ∀ gap text shown : Text, (∀ c ∈ gap, isBlank c = true) → trim text = shown →
      shown ≠ [] → '\n' ∉ shown →
      Line.header? (front ++ (gap ++ ':' :: text)) = some (.header blockType (some shown)) := by
    intro gap text shown inGap trims filledText onOneLine
    exact header?_eq_header_iff.mpr ⟨_, retailed _ (isTypeChar_before_colon inGap text),
      labelAfter?_colon inGap trims filledText onOneLine⟩
  rw [trimEnd_append filled]
  rcases trimEnd_of_unlabelled after with bare | ⟨gap, inGap, colon⟩
  · have fixed : ¬Dangling (front ++ tail) := by
      rwa [Dangling, trimEnd_append filled, bare, List.append_nil]
    rw [bare, List.append_nil, labelShown, if_neg fixed]
    exact read [] (' ' :: label) label (by simp) whole present plain
  · have dangling : Dangling (front ++ tail) := by
      rw [Dangling, trimEnd_append filled, colon, ← List.append_assoc]
      simp
    have kept : trim (':' :: ' ' :: label) = ':' :: ' ' :: label := by
      refine trim_eq_self (startsFilled_cons.mpr rfl) ?_
      have split : ':' :: ' ' :: label = [':', ' '] ++ label := rfl
      rw [split]
      exact ends.append present
    rw [colon, labelShown, if_pos dangling, List.append_assoc, List.append_assoc]
    exact read gap (':' :: ' ' :: label) _ inGap kept (by simp) (by simp [plain])

theorem classify_labelled (kind : Line.classify line = .header blockType none)
    (present : label ≠ []) (trimmed : trim label = label) (plain : '\n' ∉ label) :
    Line.classify (trimEnd (dropReturn line) ++ ':' :: ' ' :: label ++ finalReturn line) =
      .header blockType (some (labelShown line label)) := by
  have read := header?_labelled (header?_of_classify kind) present trimmed plain
  have same : labelShown (dropReturn line) label = labelShown line label := by
    have ends : Dangling (dropReturn line) ↔ Dangling line := by
      rw [Dangling, Dangling, trimEnd_dropReturn]
    simp only [labelShown, ends]
  rw [same] at read
  have filled : EndsFilled (trimEnd (dropReturn line) ++ ':' :: ' ' :: label) := by
    have split : trimEnd (dropReturn line) ++ ':' :: ' ' :: label =
        (trimEnd (dropReturn line) ++ [':', ' ']) ++ label := by simp
    rw [split]
    exact (trim_eq_self_iff.mp trimmed).2.append present
  apply classify_of_header?
  rw [dropReturn_append_return filled, read]

theorem labelAfter?_eq_some (read : Line.labelAfter? tail = some (some label)) :
    ∃ gap text, tail = gap ++ ':' :: text ∧ trim text = label := by
  obtain ⟨gap, cut, _⟩ := exists_trimStart tail
  unfold Line.labelAfter? at read
  split at read
  · cases read
  · rename_i text colon
    dsimp only at read
    split at read
    · cases read
    · split at read
      · cases read
      · cases read
        exact ⟨gap, text, by rw [← colon]; exact cut, rfl⟩
  · cases read

theorem label_between (kind : Line.classify line = .header blockType (some label)) :
    ∃ front c back, line = front ++ (label ++ back) ∧ front.getLast? = some c ∧
      (c = ':' ∨ isBlank c = true) ∧ ∀ d ∈ back, isBlank d = true := by
  obtain ⟨tail, opens, read⟩ := header?_eq_header_iff.mp (header?_of_classify kind)
  obtain ⟨start, whole, _⟩ := opens.retailed
  obtain ⟨gap, text, rfl, rfl⟩ := labelAfter?_eq_some read
  obtain ⟨before, cut, blankBefore⟩ := exists_trimStart text
  obtain ⟨after, cutAgain, blankAfter⟩ := exists_trimEnd (trimStart text)
  obtain ⟨c, last⟩ : ∃ c, (':' :: before).getLast? = some c :=
    ⟨_, List.getLast?_eq_some_getLast (List.cons_ne_nil _ _)⟩
  refine ⟨start ++ (gap ++ ':' :: before), c, after ++ finalReturn line, ?_, ?_, ?_, ?_⟩
  · have trimmed : text = before ++ (trim text ++ after) := by
      rw [trim, ← cutAgain]
      exact cut
    calc line = dropReturn line ++ finalReturn line := (dropReturn_append_finalReturn line).symm
      _ = start ++ (gap ++ ':' :: text) ++ finalReturn line := by rw [whole]
      _ = start ++ (gap ++ ':' :: before) ++ (trim text ++ (after ++ finalReturn line)) := by
        nth_rewrite 1 [trimmed]
        simp
  · rw [← List.append_assoc, List.getLast?_append, last, Option.some_or]
  · rcases List.mem_cons.mp (List.mem_of_getLast? last) with colon | inside
    · exact .inl colon
    · exact .inr (blankBefore c inside)
  · intro d member
    rcases List.mem_append.mp member with inside | back
    · exact blankAfter d inside
    · exact isBlank_of_mem_finalReturn back

end BlockMarkup
