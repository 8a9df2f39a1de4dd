import BlockMarkup.Proofs.Block.Cluster
import BlockMarkup.Proofs.Header

namespace BlockMarkup

def IsType (t : Text) : Prop :=
  ∃ c rest, t = c :: rest ∧ Line.isTypeStart c = true ∧ ∀ d ∈ rest, Line.isTypeChar d = true

-- Behind `key` stands the first colon that has something before it, and a blank or the end behind it.
structure FirstSeparator (key rest : Text) : Prop where
  separates : ∀ c ∈ rest.head?, isBlank c = true
  first : ∀ before after : Text, key ++ ':' :: rest = before ++ ':' :: after → before ≠ [] →
    (∀ c ∈ after.head?, isBlank c = true) → key.length ≤ before.length

-- The lines of the grammar. Content is what is none of them.
inductive Shaped : Text → Line → Prop where
  | blank {t : Text} (blank : ∀ c ∈ t, isBlank c = true) : Shaped t .blank
  | header {gap blockType tail : Text} {label : Option Text} (present : gap ≠ [])
      (blank : ∀ c ∈ gap, isBlank c = true) (named : IsType blockType) (labels : Labels tail label) :
    Shaped ('-' :: '-' :: '-' :: (gap ++ (blockType ++ tail))) (.header blockType label)
  | close {gap blockType tail : Text} {label : Option Text} (present : gap ≠ [])
      (blank : ∀ c ∈ gap, isBlank c = true) (named : IsType blockType) (labels : Labels tail label) :
    Shaped ('-' :: '-' :: '-' :: (gap ++ '/' :: (blockType ++ tail))) (.close blockType)
  | property {indent key rest : Text} (blank : ∀ c ∈ indent, isBlank c = true) (isKey : IsKey key)
      (separator : FirstSeparator key rest) :
    Shaped (indent ++ (key ++ ':' :: rest)) (.property indent key (trim rest))

variable {t tail line blockType value : Text} {label : Option Text} {kind : Line}

theorem Labels.stop (labels : Labels tail label) :
    ∀ c ∈ tail.head?, Line.isTypeChar c = false := by
  cases labels with
  | bare blank =>
    intro c first
    exact outside_of_isBlank isTypeChar_ofNat_blankCodes (blank c (List.mem_of_mem_head? first))
  | colon blank text => exact isTypeChar_before_colon blank text

theorem header?_eq_close_iff : Line.header? t = some (.close blockType) ↔
    ∃ gap tail, gap ≠ [] ∧ (∀ c ∈ gap, isBlank c = true) ∧
      t = '-' :: '-' :: '-' :: (gap ++ '/' :: (blockType ++ tail)) ∧
      Line.takeType? (blockType ++ tail) = some (blockType, tail) ∧
      (Line.labelAfter? tail).isSome = true := by
  constructor
  · intro read
    unfold Line.header? at read
    split at read
    · cases read
    · rename_i name dashes
      split at read
      · cases read
      · rename_i taken
        obtain ⟨label, after, kind⟩ := Option.map_eq_some_iff.mp read
        cases kind
        obtain ⟨gap, present, blank, _, rfl⟩ := afterDashes?_eq_some_iff.mp dashes
        obtain ⟨whole, _⟩ := takeType?_eq_some_iff.mp taken
        subst whole
        exact ⟨gap, _, present, blank, rfl, taken, by rw [after]; rfl⟩
    · split at read
      · cases read
      · obtain ⟨_, _, kind⟩ := Option.map_eq_some_iff.mp read
        cases kind
  · rintro ⟨gap, tail, present, blank, rfl, taken, after⟩
    have dashes : Line.afterDashes? ('-' :: '-' :: '-' :: (gap ++ '/' :: (blockType ++ tail))) =
        some ('/' :: (blockType ++ tail)) :=
      afterDashes?_eq_some_iff.mpr ⟨gap, present, blank, startsFilled_cons.mpr rfl, rfl⟩
    obtain ⟨label, after⟩ := Option.isSome_iff_exists.mp after
    rw [Line.header?, dashes]
    simp [taken, after]

theorem shaped_of_header? (plain : '\n' ∉ t) (read : Line.header? t = some kind) :
    Shaped t kind := by
  cases kind with
  | header blockType label =>
    obtain ⟨tail, ⟨⟨gap, present, blank, rfl⟩, named, _⟩, after⟩ := header?_eq_header_iff.mp read
    have inTail : '\n' ∉ tail := fun member => plain (by simp [member])
    exact .header present blank named ((labelAfter?_eq_some_iff inTail).mp after)
  | close blockType =>
    obtain ⟨gap, tail, present, blank, rfl, taken, after⟩ := header?_eq_close_iff.mp read
    have inTail : '\n' ∉ tail := fun member => plain (by simp [member])
    obtain ⟨label, after⟩ := Option.isSome_iff_exists.mp after
    exact .close present blank (takeType?_eq_some_iff.mp taken).2.1
      ((labelAfter?_eq_some_iff inTail).mp after)
  | _ => cases header?_eq_some read

theorem header?_of_shaped (plain : '\n' ∉ t) (shaped : Shaped t kind)
    (boundary : kind.isBoundary = true) : Line.header? t = some kind := by
  cases shaped with
  | blank => cases boundary
  | header present blank named labels =>
    rename_i gap blockType tail label
    have inTail : '\n' ∉ tail := fun member => plain (by simp [member])
    exact header?_eq_header_iff.mpr ⟨tail, ⟨⟨gap, present, blank, rfl⟩, named, labels.stop⟩,
      (labelAfter?_eq_some_iff inTail).mpr labels⟩
  | close present blank named labels =>
    rename_i gap blockType tail label
    have inTail : '\n' ∉ tail := fun member => plain (by simp [member])
    refine header?_eq_close_iff.mpr ⟨gap, tail, present, blank, rfl, ?_, ?_⟩
    · exact takeType?_eq_some_iff.mpr ⟨rfl, named, labels.stop⟩
    · rw [(labelAfter?_eq_some_iff inTail).mpr labels]
      rfl
  | property => cases boundary

theorem firstSeparator_iff {key rest : Text} (isKey : IsKey key) :
    FirstSeparator key rest ↔ ∀ c ∈ rest.head?, isBlank c = true := by
  refine ⟨FirstSeparator.separates, fun separates => ⟨separates, ?_⟩⟩
  intro before after same _ ends
  rcases List.append_eq_append_iff.mp same with ⟨more, longer, _⟩ | ⟨more, whole, later⟩
  · rw [longer, List.length_append]
    exact Nat.le_add_right _ _
  -- The colon is inside the key, or it is the one behind it.
  cases more with
  | nil => rw [whole, List.append_nil]
  | cons c inside =>
    obtain ⟨_, rfl⟩ := List.cons.inj later
    have solid : ∀ d ∈ (inside ++ ':' :: rest).head?, isBlank d = false := by
      cases inside with
      | nil => simp [isBlank]
      | cons d inside => simp [isKey.solid.2 d (by simp [whole])]
    obtain ⟨d, first⟩ : ∃ d, (inside ++ ':' :: rest).head? = some d := by
      cases inside <;> exact ⟨_, rfl⟩
    have blank := ends d first
    rw [solid d first] at blank
    cases blank

theorem shaped_of_property? (read : Line.property? t = some kind) : Shaped t kind := by
  cases kind with
  | property indent key value =>
    obtain ⟨rest, ⟨rfl, blank, isKey, ends⟩, rfl, _⟩ := property?_eq_some_iff.mp read
    exact .property blank isKey ((firstSeparator_iff isKey).mpr ends)
  | _ => cases property?_eq_some read

theorem property?_of_shaped (plain : '\n' ∉ t) (shaped : Shaped t kind)
    (isProperty : kind.isProperty = true) : Line.property? t = some kind := by
  cases shaped with
  | property blank isKey separator =>
    rename_i indent key rest
    have inRest : '\n' ∉ trim rest := fun member => plain (by simp [mem_of_mem_trim member])
    exact property?_eq_some_iff.mpr ⟨rest, ⟨rfl, blank, isKey, separator.separates⟩, rfl, inRest⟩
  | _ => cases isProperty

theorem blank_of_shaped (shaped : Shaped t .blank) : ∀ c ∈ t, isBlank c = true := by
  cases shaped with
  | blank blank => exact blank

theorem not_shaped_content : ¬Shaped t .content := by
  intro shaped
  cases shaped

theorem classify_of_shaped (plain : '\n' ∉ line) (shaped : Shaped (dropReturn line) kind) :
    Line.classify line = kind := by
  have oneLine : '\n' ∉ dropReturn line := fun member => plain (mem_of_mem_dropReturn member)
  cases kind with
  | header | close => exact classify_of_header? (header?_of_shaped oneLine shaped rfl)
  | property => exact classify_of_property? (property?_of_shaped oneLine shaped rfl)
  | blank =>
    rw [Line.classify]
    exact if_pos (List.all_eq_true.mpr (blank_of_shaped shaped))
  | content => exact absurd shaped not_shaped_content

theorem shaped_of_classify (plain : '\n' ∉ line) (filled : Line.classify line ≠ .content) :
    Shaped (dropReturn line) (Line.classify line) := by
  have oneLine : '\n' ∉ dropReturn line := fun member => plain (mem_of_mem_dropReturn member)
  rcases classify_cases line with ⟨blanks, blank⟩ | header | property | content
  · rw [blank]
    exact .blank (List.all_eq_true.mp blanks)
  · exact shaped_of_header? oneLine header
  · exact shaped_of_property? property
  · exact absurd content filled

theorem classify_labelText {label : Text} (named : IsType blockType) (trimmed : trim label = label)
    (plain : '\n' ∉ label) :
    Line.classify ('-' :: '-' :: '-' :: ' ' :: (blockType ++ ':' :: ' ' :: label)) =
      .header blockType (if label = [] then none else some label) := by
  have space : trim (' ' :: label) = label := by
    rw [← List.singleton_append, trim_append_blanks (by simp [isBlank]), trimmed]
  have labels : Labels (':' :: ' ' :: label) (if label = [] then none else some label) := by
    have written : Labels ([] ++ ':' :: ' ' :: label) _ := .colon (by simp) (' ' :: label)
    rwa [space] at written
  have after := (labelAfter?_eq_some_iff (by simp [plain])).mpr labels
  have whole : '-' :: '-' :: '-' :: ' ' :: (blockType ++ ':' :: ' ' :: label) =
      ('-' :: '-' :: '-' :: ' ' :: (blockType ++ [':'])) ++ ' ' :: label := by simp
  have noReturn : dropReturn ('-' :: '-' :: '-' :: ' ' :: (blockType ++ ':' :: ' ' :: label)) =
      '-' :: '-' :: '-' :: ' ' :: (blockType ++ ':' :: ' ' :: label) := by
    rw [whole, (returns_append_cons (by decide) _ label).1,
      dropReturn_eq_self (trim_eq_self_iff.mp trimmed).2]
  apply classify_of_header?
  rw [noReturn]
  exact header?_eq_header_iff.mpr ⟨_, ⟨⟨[' '], by simp, by simp [isBlank], rfl⟩, named, labels.stop⟩,
    after⟩

theorem classify_iff_shaped :
    (∀ line : Text, '\n' ∉ line →
      (∀ kind, kind ≠ .content → (Line.classify line = kind ↔ Shaped (dropReturn line) kind)) ∧
      (Line.classify line = .content ↔ ∀ kind, ¬Shaped (dropReturn line) kind)) ∧
    (∀ indent key value : Text, (∀ c ∈ indent, isBlank c = true) → IsKey key →
      trim value = value → '\n' ∉ value →
      Line.classify (indent ++ (key ++ ':' :: ' ' :: value)) = .property indent key value) ∧
    ∀ blockType label : Text, IsType blockType → trim label = label → '\n' ∉ label →
      Line.classify ('-' :: '-' :: '-' :: ' ' :: (blockType ++ ':' :: ' ' :: label)) =
        .header blockType (if label = [] then none else some label) := by
  refine ⟨fun line plain => ⟨fun kind filled => ⟨?_, classify_of_shaped plain⟩, ?_, ?_⟩, ?_, ?_⟩
  · rintro rfl
    exact shaped_of_classify plain filled
  · intro content kind shaped
    rw [classify_of_shaped plain shaped] at content
    exact not_shaped_content (content ▸ shaped)
  · intro none
    by_contra filled
    exact none _ (shaped_of_classify plain filled)
  · intro indent key value blank isKey trimmed plain
    have written := classify_propertyText blank isKey trimmed plain
    rwa [propertyText, List.append_assoc] at written
  · intro blockType label named trimmed plain
    exact classify_labelText named trimmed plain

theorem classify_iff_shaped_cardLines :
    '\n' ∉ "---  core/card : a: b \r".toList ∧
      Shaped (dropReturn "---  core/card : a: b \r".toList)
        (.header "core/card".toList (some "a: b".toList)) ∧
      '\n' ∉ "12:30 pm".toList ∧ (∀ kind, ¬Shaped (dropReturn "12:30 pm".toList) kind) ∧
      (∀ c ∈ "\t".toList, isBlank c = true) ∧ IsKey "@link:hover".toList ∧
      trim "red: x".toList = "red: x".toList ∧ '\n' ∉ "red: x".toList ∧
      Line.classify ("\t".toList ++ ("@link:hover".toList ++ ':' :: ' ' :: "red: x".toList)) =
        .property "\t".toList "@link:hover".toList "red: x".toList ∧
      IsType "core/card".toList ∧ trim [] = [] ∧ '\n' ∉ ([] : Text) ∧
      Line.classify ('-' :: '-' :: '-' :: ' ' :: ("core/card".toList ++ ':' :: ' ' :: [])) =
        .header "core/card".toList none := by
  have header : '\n' ∉ "---  core/card : a: b \r".toList := by decide
  have content : '\n' ∉ "12:30 pm".toList := by decide
  have blank : ∀ c ∈ "\t".toList, isBlank c = true := by decide
  have isKey : IsKey "@link:hover".toList :=
    ⟨'l', "ink:hover".toList, .inr rfl, by decide, List.all_eq_true.mp rfl⟩
  have value : '\n' ∉ "red: x".toList := by decide
  have named : IsType "core/card".toList :=
    ⟨'c', "ore/card".toList, rfl, by decide, List.all_eq_true.mp rfl⟩
  refine ⟨header, ?_, content, ?_, blank, isKey, rfl, value, ?_, named, rfl, by simp, ?_⟩
  · exact ((classify_iff_shaped.1 _ header).1 _ (by simp)).mp (by decide)
  · exact (classify_iff_shaped.1 _ content).2.mp (by decide)
  · exact classify_iff_shaped.2.1 _ _ _ blank isKey rfl value
  · exact classify_iff_shaped.2.2 _ [] named rfl (by simp)

end BlockMarkup
