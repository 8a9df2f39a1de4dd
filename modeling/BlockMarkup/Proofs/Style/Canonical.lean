import BlockMarkup.Proofs.Text
import BlockMarkup.Style.Reader
import BlockMarkup.Style.Writer

namespace BlockMarkup

namespace Style

variable {t rest content : Text} {c : Char}

def IsVariableName (name : Text) : Prop :=
  ∃ c rest, name = c :: rest ∧ StyleLine.isVariableStart c = true ∧
    ∀ d ∈ rest, StyleLine.isVariableChar d = true

def IsPropertyName (name : Text) : Prop :=
  ∃ c rest, name = c :: rest ∧ StyleLine.isPropertyStart c = true ∧ ∀ d ∈ rest, isNameChar d = true

def IsValue (value : Text) : Prop := value ≠ [] ∧ trim value = value ∧ '\n' ∉ value

def Variable.line (found : Variable) : Text := found.name ++ ':' :: ' ' :: found.value

-- A variable whose line has braces like those of a one-line rule would be read as one.
structure Variable.Canonical (found : Variable) : Prop where
  named : IsVariableName found.name
  valued : IsValue found.value
  noBraces : ¬('{' ∈ found.line ∧ found.line.getLast? = some '}')

structure CanonicalProperty (name value : Text) : Prop where
  named : IsPropertyName name
  valued : IsValue value
  noSemicolon : value.getLast? ≠ some ';'

def IsLabel (label : Text) : Prop :=
  label ≠ [] ∧ (∀ c ∈ label, isSuffixChar c = true) ∧ isPseudoClass label = false

def IsTarget (target : Text) : Prop :=
  '\n' ∉ target ∧ trimEnd target = target ∧ ∀ rest, target = '>' :: rest → trimStart rest = rest

-- A selector that is kept as it is: one line that the reader takes for nothing else.
def IsRawSelector (selector : Text) : Prop :=
  '\n' ∉ selector ∧ StyleLine.classify selector = .raw selector

def Address.Canonical (address : Address) : Prop :=
  if address.blockType = rawType then address.label = none ∧ IsRawSelector address.target
  else isBlockType address.blockType = true ∧ (∀ label ∈ address.label, IsLabel label) ∧
    IsTarget address.target

structure Rule.Canonical (rule : Rule) : Prop where
  address : rule.address.Canonical
  filled : rule.properties.entries ≠ []
  properties : ∀ entry ∈ rule.properties.entries, CanonicalProperty entry.1 entry.2

structure Graph.Canonical (graph : Graph) : Prop where
  names : (graph.bindings.map Variable.name).Nodup
  addresses : (graph.rules.map Rule.address).Nodup
  bindings : ∀ found ∈ graph.bindings, found.Canonical
  rules : ∀ rule ∈ graph.rules, rule.Canonical

instance : DecidablePred IsVariableName
  | [] => isFalse (by rintro ⟨_, _, same, _⟩; cases same)
  | c :: rest =>
    decidable_of_iff (StyleLine.isVariableStart c = true ∧ rest.all StyleLine.isVariableChar = true)
      (by
        rw [List.all_eq_true]
        exact ⟨fun valid => ⟨c, rest, rfl, valid⟩, by rintro ⟨_, _, ⟨⟩, valid⟩; exact valid⟩)

instance : DecidablePred IsPropertyName
  | [] => isFalse (by rintro ⟨_, _, same, _⟩; cases same)
  | c :: rest =>
    decidable_of_iff (StyleLine.isPropertyStart c = true ∧ rest.all isNameChar = true)
      (by
        rw [List.all_eq_true]
        exact ⟨fun valid => ⟨c, rest, rfl, valid⟩, by rintro ⟨_, _, ⟨⟩, valid⟩; exact valid⟩)

instance : DecidablePred IsValue := fun value =>
  inferInstanceAs (Decidable (value ≠ [] ∧ trim value = value ∧ '\n' ∉ value))

instance : DecidablePred Variable.Canonical := fun found =>
  decidable_of_iff (IsVariableName found.name ∧ IsValue found.value ∧
      ¬('{' ∈ found.line ∧ found.line.getLast? = some '}'))
    ⟨fun ⟨named, valued, noBraces⟩ => ⟨named, valued, noBraces⟩,
      fun ⟨named, valued, noBraces⟩ => ⟨named, valued, noBraces⟩⟩

instance (name value : Text) : Decidable (CanonicalProperty name value) :=
  decidable_of_iff (IsPropertyName name ∧ IsValue value ∧ value.getLast? ≠ some ';')
    ⟨fun ⟨named, valued, noSemicolon⟩ => ⟨named, valued, noSemicolon⟩,
      fun ⟨named, valued, noSemicolon⟩ => ⟨named, valued, noSemicolon⟩⟩

instance : DecidablePred IsLabel := fun label =>
  decidable_of_iff (label ≠ [] ∧ label.all isSuffixChar = true ∧ isPseudoClass label = false)
    (by rw [List.all_eq_true, IsLabel])

instance : DecidablePred IsTarget := fun target =>
  decidable_of_iff ('\n' ∉ target ∧ trimEnd target = target ∧
      (target.head? = some '>' → trimStart target.tail = target.tail))
    (by
      refine and_congr_right fun _ => and_congr_right fun _ => ?_
      constructor
      · rintro valid rest rfl
        exact valid rfl
      · intro valid first
        obtain ⟨rest, rfl⟩ := List.head?_eq_some_iff.mp first
        exact valid rest rfl)

instance : DecidablePred IsRawSelector := fun selector =>
  inferInstanceAs (Decidable ('\n' ∉ selector ∧ StyleLine.classify selector = .raw selector))

instance : DecidablePred Address.Canonical := fun address =>
  inferInstanceAs (Decidable (if address.blockType = rawType then
      address.label = none ∧ IsRawSelector address.target
    else isBlockType address.blockType = true ∧ (∀ label ∈ address.label, IsLabel label) ∧
      IsTarget address.target))

instance : DecidablePred Rule.Canonical := fun rule =>
  decidable_of_iff (rule.address.Canonical ∧ rule.properties.entries ≠ [] ∧
      ∀ entry ∈ rule.properties.entries, CanonicalProperty entry.1 entry.2)
    ⟨fun ⟨address, filled, properties⟩ => ⟨address, filled, properties⟩,
      fun ⟨address, filled, properties⟩ => ⟨address, filled, properties⟩⟩

instance : DecidablePred Graph.Canonical := fun graph =>
  decidable_of_iff ((graph.bindings.map Variable.name).Nodup ∧
      (graph.rules.map Rule.address).Nodup ∧ (∀ found ∈ graph.bindings, found.Canonical) ∧
      ∀ rule ∈ graph.rules, rule.Canonical)
    ⟨fun ⟨names, addresses, bindings, rules⟩ => ⟨names, addresses, bindings, rules⟩,
      fun ⟨names, addresses, bindings, rules⟩ => ⟨names, addresses, bindings, rules⟩⟩

theorem isBlank_of_isNameChar (name : isNameChar c = true) : isBlank c = false := by
  simp only [isNameChar, Bool.or_eq_true, beq_iff_eq] at name
  rcases name with word | rfl
  · exact isBlank_of_isWord word
  · rfl

theorem isBlank_of_isPathChar (path : isPathChar c = true) : isBlank c = false := by
  simp only [isPathChar, Bool.or_eq_true, beq_iff_eq] at path
  rcases path with name | rfl
  · exact isBlank_of_isNameChar name
  · rfl

theorem isBlank_of_isSuffixChar (suffix : isSuffixChar c = true) : isBlank c = false := by
  simp only [isSuffixChar, Bool.or_eq_true, beq_iff_eq] at suffix
  rcases suffix with ((name | rfl) | rfl) | rfl
  · exact isBlank_of_isNameChar name
  all_goals rfl

theorem isNameChar_of_isLetter (letter : isLetter c = true) : isNameChar c = true := by
  have ascii : c.toNat < 128 := by
    change (decide (c.val ≥ 'A'.val ∧ c.val ≤ 'Z'.val) || (c.val ≥ 'a'.val && c.val ≤ 'z'.val)) = true
      at letter
    simp only [Bool.or_eq_true, Bool.and_eq_true, decide_eq_true_eq, ge_iff_le,
      UInt32.le_iff_toNat_le] at letter
    have upper : ('Z'.val).toNat = 90 ∧ ('z'.val).toNat = 122 := by decide
    change c.val.toNat < 128
    omega
  have alphabetic : isAlphabetic c = true := by simpa [isAlphabetic, ascii, isLetter] using letter
  simp [isNameChar, isWord, alphabetic]

theorem isNameChar_of_isPropertyStart (start : StyleLine.isPropertyStart c = true) :
    isNameChar c = true := by
  simp only [StyleLine.isPropertyStart, Bool.or_eq_true, beq_iff_eq] at start
  rcases start with letter | rfl
  · exact isNameChar_of_isLetter letter
  · rfl

theorem isVariableChar_of_isVariableStart (start : StyleLine.isVariableStart c = true) :
    StyleLine.isVariableChar c = true := by
  simp only [StyleLine.isVariableStart, Bool.or_eq_true, beq_iff_eq] at start
  rcases start with ((letter | rfl) | rfl) | rfl
  · have name := isNameChar_of_isLetter letter
    simp only [isNameChar, Bool.or_eq_true, beq_iff_eq] at name
    rcases name with word | rfl
    · simp [StyleLine.isVariableChar, word]
    · rfl
  all_goals rfl

theorem mem_piece_of_mem {mark : Char} (member : c ∈ t) (other : c ≠ mark) :
    ∃ piece ∈ t.splitOn mark, c ∈ piece := by
  induction t with
  | nil => cases member
  | cons d rest ih =>
    rw [List.splitOn_cons_eq_if_modifyHead]
    obtain ⟨first, more, pieces⟩ := List.exists_cons_of_ne_nil (List.splitOn_ne_nil mark rest)
    rcases List.mem_cons.mp member with rfl | later
    · exact ⟨c :: first, by simp [other, pieces], by simp⟩
    · obtain ⟨piece, found, inside⟩ := ih later
      split
      · exact ⟨piece, List.mem_cons_of_mem _ found, inside⟩
      · rw [pieces] at found ⊢
        rcases List.mem_cons.mp found with rfl | found
        · exact ⟨d :: piece, by simp, List.mem_cons_of_mem _ inside⟩
        · exact ⟨piece, by simp [found], inside⟩

theorem blockType_pieces (valid : isBlockType t = true) :
    ∃ first second more, t.splitOn '/' = first :: second :: more ∧
      first.head?.any isLetter = true ∧
      ∀ name ∈ first :: second :: more, name ≠ [] ∧ ∀ c ∈ name, isNameChar c = true := by
  unfold isBlockType at valid
  split at valid
  · rename_i first second more pieces
    simp only [Bool.and_eq_true, List.all_eq_true, Bool.not_eq_true'] at valid
    refine ⟨first, second, more, pieces, valid.1, ?_⟩
    intro name member
    obtain ⟨filled, chars⟩ := valid.2 name member
    exact ⟨by simpa using filled, chars⟩
  · cases valid

theorem isPathChar_of_isBlockType (valid : isBlockType t = true) : ∀ c ∈ t, isPathChar c = true := by
  intro c member
  obtain ⟨first, second, more, pieces, _, names⟩ := blockType_pieces valid
  by_cases slash : c = '/'
  · simp [isPathChar, slash]
  · obtain ⟨piece, found, inside⟩ := mem_piece_of_mem member slash
    simp [isPathChar, (names piece (pieces ▸ found)).2 c inside]

theorem slash_mem_of_isBlockType (valid : isBlockType t = true) : '/' ∈ t := by
  obtain ⟨first, second, more, pieces, _, _⟩ := blockType_pieces valid
  apply Classical.byContradiction
  intro absent
  rw [List.splitOn_eq_singleton absent] at pieces
  cases pieces

theorem isBlockType_cons (valid : isBlockType t = true) :
    ∃ c rest, t = c :: rest ∧ isLetter c = true := by
  obtain ⟨first, second, more, pieces, letter, _⟩ := blockType_pieces valid
  have joined : ['/'].intercalate (t.splitOn '/') = t := List.intercalate_splitOn '/'
  rw [pieces] at joined
  cases first with
  | nil => cases letter
  | cons c name =>
    refine ⟨c, name ++ '/' :: ['/'].intercalate (second :: more), ?_, by simpa using letter⟩
    rw [← joined, List.intercalate_cons_cons]
    simp

theorem isBlank_of_mem_spaces {n : Nat} : ∀ d ∈ spaces n, isBlank d = true := by
  intro d member
  rw [(List.mem_replicate.mp member).2]
  rfl

theorem indentWidth_spaces (n : Nat) : StyleLine.indentWidth (spaces n) = n := by
  simp [StyleLine.indentWidth, spaces, List.count_replicate]

theorem classify_content {n : Nat} (solid : isBlank c = false) (ends : EndsFilled (c :: rest)) :
    StyleLine.classify (spaces n ++ c :: rest) =
      if c :: rest = ['}'] ∨ (dropStart? ['/', '/'] (c :: rest)).isSome then .skipped
      else if n = 0 then StyleLine.atMargin (c :: rest)
      else StyleLine.indented n (c :: rest) := by
  have starts : StartsFilled (c :: rest) := startsFilled_cons.mpr solid
  have whole : dropReturn (spaces n ++ c :: rest) = spaces n ++ c :: rest :=
    dropReturn_eq_self (ends.append (by simp))
  have content : trim (spaces n ++ c :: rest) = c :: rest := by
    rw [trim_append_blanks isBlank_of_mem_spaces, trim_eq_self starts ends]
  have blanks : (spaces n ++ c :: rest).takeWhile isBlank = spaces n :=
    (takeWhile_append_stop isBlank_of_mem_spaces starts).1
  simp [StyleLine.classify, whole, content, blanks, indentWidth_spaces]

-- What is written starts with none of the characters that let the reader skip a line.
theorem classify_spaces {n : Nat} (solid : isBlank c = false) (ends : EndsFilled (c :: rest))
    (noBrace : c ≠ '}') (noSlash : c ≠ '/') :
    StyleLine.classify (spaces n ++ c :: rest) =
      if n = 0 then StyleLine.atMargin (c :: rest) else StyleLine.indented n (c :: rest) := by
  have noComment : dropStart? ['/', '/'] (c :: rest) = none := by
    simp [dropStart?, Ne.symm noSlash]
  simp [classify_content solid ends, noComment, noBrace]

theorem classify_margin (solid : isBlank c = false) (ends : EndsFilled (c :: rest))
    (noBrace : c ≠ '}') (noSlash : c ≠ '/') :
    StyleLine.classify (c :: rest) = StyleLine.atMargin (c :: rest) :=
  classify_spaces (n := 0) solid ends noBrace noSlash

theorem classify_letter (letter : isLetter c = true) (ends : EndsFilled (c :: rest)) :
    StyleLine.classify (c :: rest) = StyleLine.atMargin (c :: rest) :=
  classify_margin (isBlank_of_isNameChar (isNameChar_of_isLetter letter)) ends
    (ne_of_class letter rfl) (ne_of_class letter rfl)

theorem classify_indented {n : Nat} (positive : 0 < n) (solid : isBlank c = false)
    (ends : EndsFilled (c :: rest)) (noBrace : c ≠ '}') (noSlash : c ≠ '/') :
    StyleLine.classify (spaces n ++ c :: rest) = StyleLine.indented n (c :: rest) := by
  rw [classify_spaces solid ends noBrace noSlash, if_neg (Nat.pos_iff_ne_zero.mp positive)]

theorem compactParts?_eq_none (ends : EndsFilled content)
    (noBraces : ¬('{' ∈ content ∧ content.getLast? = some '}')) :
    StyleLine.compactParts? content = none := by
  unfold StyleLine.compactParts?
  split
  · rfl
  · rename_i selector rest found
    obtain ⟨rfl, _⟩ := splitAtFirst?_eq_some_iff.mp found
    have restEnds : EndsFilled rest := (ends.of_append).of_cons
    rw [trimEnd_eq_self restEnds]
    have last : rest.getLast? ≠ some '}' := by
      intro closed
      refine noBraces ⟨by simp, ?_⟩
      rw [List.getLast?_append, List.getLast?_cons, closed]
      rfl
    simp [last]

theorem mem_takeWhile_stop {p : Char → Bool} {front back : Text} {stop d : Char}
    (stops : p stop = false) (member : d ∈ (front ++ stop :: back).takeWhile p) : d ∈ front := by
  induction front with
  | nil => simp [stops] at member
  | cons e front ih =>
    cases passes : p e with
    | false => simp [passes] at member
    | true =>
      rw [List.cons_append, List.takeWhile_cons_of_pos passes] at member
      rcases List.mem_cons.mp member with rfl | later
      · simp
      · exact List.mem_cons_of_mem _ (ih later)

theorem IsValue.ends {value : Text} (valid : IsValue value) : EndsFilled value :=
  (trim_eq_self_iff.mp valid.2.1).2

theorem IsValue.starts {value : Text} (valid : IsValue value) : StartsFilled value :=
  (trim_eq_self_iff.mp valid.2.1).1

theorem pair_ends {name value : Text} (valid : IsValue value) :
    EndsFilled (name ++ ':' :: ' ' :: value) := by
  have shown : name ++ ':' :: ' ' :: value = (name ++ [':', ' ']) ++ value := by simp
  rw [shown]
  exact valid.ends.append valid.1

theorem isVariableStart_solid (start : StyleLine.isVariableStart c = true) :
    isBlank c = false ∧ c ≠ '}' ∧ c ≠ '/' := by
  simp only [StyleLine.isVariableStart, Bool.or_eq_true, beq_iff_eq] at start
  rcases start with ((letter | rfl) | rfl) | rfl
  · refine ⟨isBlank_of_isNameChar (isNameChar_of_isLetter letter), ?_, ?_⟩
    all_goals
      rintro rfl
      cases letter
  all_goals exact ⟨rfl, by decide, by decide⟩

theorem slash_notMem_variableName {name : Text} (valid : IsVariableName name) : '/' ∉ name := by
  obtain ⟨c, rest, rfl, start, chars⟩ := valid
  intro member
  rcases List.mem_cons.mp member with rfl | later
  · cases start
  · exact absurd (chars '/' later) (by decide)

theorem takeWhile_colon {p : Char → Bool} {name : Text} (value : Text)
    (chars : ∀ c ∈ name, p c = true) (stop : p ':' = false) :
    (name ++ ':' :: value).takeWhile p = name ∧ (name ++ ':' :: value).dropWhile p = ':' :: value :=
  takeWhile_append_stop chars (by simpa using stop)

theorem blockSelector?_pair {name value : Text} (valid : IsVariableName name) :
    blockSelector? (name ++ ':' :: value) = none := by
  have noType : isBlockType ((name ++ ':' :: value).takeWhile isPathChar) = false := by
    cases blockType : isBlockType ((name ++ ':' :: value).takeWhile isPathChar) with
    | false => rfl
    | true =>
      have slash := mem_takeWhile_stop (by decide) (slash_mem_of_isBlockType blockType)
      exact absurd slash (slash_notMem_variableName valid)
  simp [blockSelector?, takeBlockType?, noType]

theorem classify_variable {found : Variable} (canonical : found.Canonical) :
    StyleLine.classify found.line = .variable found.name found.value := by
  obtain ⟨name, value⟩ := found
  obtain ⟨named, valued, noBraces⟩ := canonical
  have selector : blockSelector? (name ++ ':' :: ' ' :: value) = none := blockSelector?_pair named
  obtain ⟨c, rest, rfl, start, chars⟩ := named
  obtain ⟨solid, noBrace, noSlash⟩ := isVariableStart_solid start
  have ends : EndsFilled (c :: rest ++ ':' :: ' ' :: value) := pair_ends valued
  have name := takeWhile_colon (' ' :: value) chars rfl
  rw [Variable.line] at noBraces ⊢
  rw [List.cons_append] at selector ends noBraces ⊢
  have trimmed : trim value = value := valued.2.1
  have present : value ≠ [] := valued.1
  rw [classify_margin solid ends noBrace noSlash]
  simp [StyleLine.atMargin, compactParts?_eq_none ends noBraces, selector, StyleLine.variableParts?,
    start, name, trimmed, present, show isBlank ' ' = true from rfl]

theorem classify_property {name value : Text} {n : Nat} (positive : 0 < n)
    (canonical : CanonicalProperty name value) :
    StyleLine.classify (spaces n ++ name ++ ':' :: ' ' :: value) = .declaration name value := by
  obtain ⟨⟨c, rest, rfl, start, chars⟩, valued, noSemicolon⟩ := canonical
  have solid := isBlank_of_isNameChar (isNameChar_of_isPropertyStart start)
  have other : ∀ d, StyleLine.isPropertyStart d = false → c ≠ d := fun _ => ne_of_class start
  have ends : EndsFilled (c :: rest ++ ':' :: ' ' :: value) := pair_ends valued
  have name := takeWhile_colon (' ' :: value) chars rfl
  have colon : trimStart (':' :: ' ' :: value) = ':' :: ' ' :: value := rfl
  have blank : trimStart (' ' :: value) = value := trimStart_eq_self valued.starts
  have trimmed : trim value = value := valued.2.1
  have present : value ≠ [] := valued.1
  rw [List.append_assoc, List.cons_append] at *
  rw [classify_indented positive solid ends (other _ rfl) (other _ rfl)]
  simp [StyleLine.indented, other '.' rfl, other ':' rfl, other '>' rfl,
    StyleLine.declarationParts?, start, name, colon, blank, StyleLine.dropSemicolon, noSemicolon,
    trimmed, present]

theorem IsLabel.trimStart {label : Text} (valid : IsLabel label) : trimStart label = label := by
  apply trimStart_eq_self
  intro c first
  exact isBlank_of_isSuffixChar (valid.2.1 c (List.mem_of_mem_head? first))

theorem scope_chars {scope : Scope} (blockType : isBlockType scope.blockType = true)
    (labels : ∀ label ∈ scope.label, IsLabel label) :
    ∀ c ∈ scope.selector, isBlank c = false ∧ c ≠ '{' := by
  obtain ⟨name, label⟩ := scope
  have path : ∀ c ∈ name, isBlank c = false ∧ c ≠ '{' := by
    intro c member
    have valid := isPathChar_of_isBlockType blockType c member
    exact ⟨isBlank_of_isPathChar valid, by rintro rfl; cases valid⟩
  cases label with
  | none => exact path
  | some label =>
    intro c member
    rcases List.mem_append.mp member with inside | rest
    · exact path c inside
    rcases List.mem_cons.mp rest with rfl | inside
    · exact ⟨rfl, by decide⟩
    have valid := (labels label rfl).2.1 c inside
    exact ⟨isBlank_of_isSuffixChar valid, by rintro rfl; cases valid⟩

theorem blockSelector?_scope {scope : Scope} (blockType : isBlockType scope.blockType = true)
    (labels : ∀ label ∈ scope.label, IsLabel label) :
    blockSelector? scope.selector = some (scope.blockType, scope.label) := by
  obtain ⟨name, label⟩ := scope
  have path := isPathChar_of_isBlockType blockType
  cases label with
  | none =>
    have taken : name.takeWhile isPathChar = name ∧ name.dropWhile isPathChar = [] :=
      ⟨List.takeWhile_eq_self_iff.mpr path, List.dropWhile_eq_nil_iff.mpr path⟩
    simp [Scope.selector, blockSelector?, takeBlockType?, taken, blockType]
  | some label =>
    have valid := labels label rfl
    have taken := takeWhile_colon label path rfl
    have colon : trimStart (':' :: label) = ':' :: label := rfl
    have suffix : ∀ c ∈ label, isSuffixChar c = true := valid.2.1
    simpa [Scope.selector, blockSelector?, takeBlockType?, taken, blockType, colon, valid.trimStart,
      valid.1] using suffix

theorem classify_scope {scope : Scope} (blockType : isBlockType scope.blockType = true)
    (labels : ∀ label ∈ scope.label, IsLabel label) :
    StyleLine.classify scope.selector = .block scope.blockType scope.label := by
  have chars := scope_chars blockType labels
  have selector := blockSelector?_scope blockType labels
  have front : ∃ c rest, scope.selector = c :: rest ∧ isLetter c = true := by
    obtain ⟨c, rest, name, letter⟩ := isBlockType_cons blockType
    cases label : scope.label with
    | none => exact ⟨c, rest, by rw [Scope.selector, label, name], letter⟩
    | some text => exact ⟨c, rest ++ ':' :: text, by rw [Scope.selector, label, name]; rfl, letter⟩
  obtain ⟨c, rest, line, letter⟩ := front
  have ends : EndsFilled (c :: rest) := by
    intro d last
    exact (chars d (line ▸ List.mem_of_getLast? last)).1
  have noBraces : ¬('{' ∈ c :: rest ∧ (c :: rest).getLast? = some '}') := by
    rintro ⟨brace, _⟩
    exact (chars '{' (line ▸ brace)).2 rfl
  rw [line] at selector ⊢
  rw [classify_letter letter ends]
  simp [StyleLine.atMargin, compactParts?_eq_none ends noBraces, selector]

theorem selector_forms (target : Text) (other : target ≠ selfTarget) :
    (∃ rest, target = '>' :: rest ∧ (Target.of target).selector = '>' :: rest) ∨
    (∃ pseudo, target = selfTarget ++ ':' :: pseudo ∧ (Target.of target).selector = ':' :: pseudo) ∨
    (target.head? ≠ some '>' ∧ (Target.of target).selector = '.' :: target) := by
  unfold Target.of
  split
  · rename_i rest
    exact .inl ⟨rest, rfl, rfl⟩
  · rename_i noAngle
    right
    have start : target.head? ≠ some '>' := by
      intro first
      obtain ⟨rest, rfl⟩ := List.head?_eq_some_iff.mp first
      exact noAngle rest rfl
    rw [if_neg other]
    split
    · rename_i name pseudo found
      obtain ⟨rfl, _⟩ := splitAtFirst?_eq_some_iff.mp found
      split
      · rename_i same
        exact .inl ⟨pseudo, by rw [same], rfl⟩
      · exact .inr ⟨start, rfl⟩
    · exact .inr ⟨start, rfl⟩

theorem of_eq_root_iff {target : Text} : Target.of target = .root ↔ target = selfTarget := by
  constructor
  · intro root
    apply Classical.byContradiction
    intro other
    rcases selector_forms target other with ⟨rest, _, shown⟩ | ⟨rest, _, shown⟩ | ⟨_, shown⟩
    all_goals
      rw [root] at shown
      cases shown
  · rintro rfl
    rfl

theorem IsTarget.ends {target : Text} (valid : IsTarget target) : EndsFilled target :=
  valid.2.1 ▸ endsFilled_trimEnd target

theorem classify_nested {target : Text} {n : Nat} (positive : 0 < n) (ends : EndsFilled target)
    (other : target ≠ selfTarget) :
    StyleLine.classify (spaces n ++ (Target.of target).selector) =
      .nested n (Target.of target).selector := by
  have sign : ∀ d rest, (d = '.' ∨ d = ':' ∨ d = '>') → EndsFilled (d :: rest) →
      StyleLine.classify (spaces n ++ d :: rest) = .nested n (d :: rest) := by
    intro d rest mark filled
    have known : isBlank d = false ∧ d ≠ '}' ∧ d ≠ '/' := by
      rcases mark with rfl | rfl | rfl <;> exact ⟨rfl, by decide, by decide⟩
    rw [classify_indented positive known.1 filled known.2.1 known.2.2]
    rcases mark with rfl | rfl | rfl <;> simp [StyleLine.indented]
  rcases selector_forms target other with ⟨rest, rfl, shown⟩ | ⟨pseudo, rfl, shown⟩ | ⟨_, shown⟩
  · rw [shown]
    exact sign '>' rest (by simp) ends
  · rw [shown]
    exact sign ':' pseudo (by simp) ends.of_append
  · rw [shown]
    exact sign '.' target (by simp) (ends.cons rfl)

-- A part opened at the same depth as the selector, or deeper, does not own it.
def Shallow (n : Nat) (opened : Option (Nat × Text)) : Prop := ∀ part ∈ opened, n ≤ part.1

theorem pseudoOwner_shallow {n : Nat} {opened : Option (Nat × Text)} (shallow : Shallow n opened) :
    Context.pseudoOwner n opened = selfTarget := by
  cases opened with
  | none => rfl
  | some part =>
    have depth : ¬part.1 < n := Nat.not_lt.mpr (shallow part rfl)
    simp [Context.pseudoOwner, depth]

theorem enter_selector {n : Nat} {blockType target before : Text} {label : Option Text}
    {opened : Option (Nat × Text)} (shallow : Shallow n opened) (valid : IsTarget target)
    (other : target ≠ selfTarget) :
    ∃ after, Shallow n after ∧
      (Context.block blockType label before opened).enter n (Target.of target).selector =
        .block blockType label target after := by
  rcases selector_forms target other with ⟨rest, rfl, shown⟩ | ⟨pseudo, rfl, shown⟩ | ⟨_, shown⟩
  · refine ⟨none, by simp [Shallow], ?_⟩
    rw [shown, Context.enter, valid.2.2 rest rfl]
  · refine ⟨opened, shallow, ?_⟩
    rw [shown, Context.enter, pseudoOwner_shallow shallow]
  · refine ⟨if target.contains ':' then none else some (n, target), ?_, by rw [shown, Context.enter]⟩
    split <;> simp [Shallow]

end Style
end BlockMarkup
