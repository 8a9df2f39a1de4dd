import BlockMarkup.Proofs.Style.Body

namespace BlockMarkup.Style

variable {selector blockType text t rest property value : Text} {suffix : Option Text} {c : Char}

-- A selector line is a block type, or a block type and a suffix with a colon between them. The
-- colon may have blanks on both sides.
inductive SelectorLine : Text → Text → Option Text → Prop where
  | plain {blockType : Text} (valid : isBlockType blockType = true) :
      SelectorLine blockType blockType none
  | suffixed {blockType before after text : Text} (valid : isBlockType blockType = true)
      (gapBefore : ∀ c ∈ before, isBlank c = true) (gapAfter : ∀ c ∈ after, isBlank c = true)
      (present : text ≠ []) (chars : ∀ c ∈ text, isSuffixChar c = true) :
      SelectorLine (blockType ++ (before ++ ':' :: (after ++ text))) blockType (some text)

theorem selectorLine_of_blockSelector? (found : blockSelector? selector = some (blockType, suffix)) :
    SelectorLine selector blockType suffix := by
  unfold blockSelector? at found
  split at found
  · cases found
  rename_i name rest taken
  obtain ⟨rfl, valid⟩ := takeBlockType?_eq_some taken
  split at found
  · rename_i ended
    obtain ⟨rfl, rfl⟩ := Prod.mk.inj (Option.some.inj found)
    rw [ended, List.append_nil]
    exact .plain valid
  split at found
  · rename_i more colon
    dsimp only at found
    split at found
    · rename_i passes
      obtain ⟨rfl, rfl⟩ := Prod.mk.inj (Option.some.inj found)
      obtain ⟨before, cut, gapBefore⟩ := exists_trimStart rest
      obtain ⟨after, whole, gapAfter⟩ := exists_trimStart more
      simp only [Bool.and_eq_true, Bool.not_eq_true', List.all_eq_true] at passes
      rw [cut, colon]
      nth_rewrite 1 [whole]
      exact .suffixed valid gapBefore gapAfter (by simpa using passes.1) passes.2
    · cases found
  · cases found

namespace SelectorLine

theorem valid (line : SelectorLine selector blockType suffix) : isBlockType blockType = true := by
  cases line with
  | plain valid => exact valid
  | suffixed valid => exact valid

theorem starts (line : SelectorLine selector blockType suffix) :
    ∃ c rest, selector = c :: rest ∧ isLetter c = true := by
  obtain ⟨c, rest, rfl, letter⟩ := isBlockType_cons line.valid
  cases line with
  | plain => exact ⟨c, rest, rfl, letter⟩
  | suffixed => exact ⟨c, _, List.cons_append, letter⟩

theorem chars (line : SelectorLine selector blockType suffix) :
    ∀ c ∈ selector, isPathChar c = true ∨ isBlank c = true ∨ c = ':' ∨ isSuffixChar c = true := by
  intro c member
  cases line with
  | plain valid => exact .inl (isPathChar_of_isBlockType valid c member)
  | suffixed valid gapBefore gapAfter present chars =>
    simp only [List.mem_append, List.mem_cons] at member
    rcases member with inType | inBefore | colon | inAfter | inText
    · exact .inl (isPathChar_of_isBlockType valid c inType)
    · exact .inr (.inl (gapBefore c inBefore))
    · exact .inr (.inr (.inl colon))
    · exact .inr (.inl (gapAfter c inAfter))
    · exact .inr (.inr (.inr (chars c inText)))

theorem noBrace (line : SelectorLine selector blockType suffix) : '{' ∉ selector := fun member =>
  absurd (line.chars '{' member) (by decide)

theorem ends (line : SelectorLine selector blockType suffix) : EndsFilled selector := by
  cases line with
  | plain valid =>
    intro c last
    exact isBlank_of_isPathChar (isPathChar_of_isBlockType valid c (List.mem_of_getLast? last))
  | @suffixed blockType before after text valid gapBefore gapAfter present chars =>
    have filled : EndsFilled text := fun c last =>
      isBlank_of_isSuffixChar (chars c (List.mem_of_getLast? last))
    have behind : EndsFilled (after ++ text) := filled.append present
    exact (behind.cons rfl).append (by simp) |>.append (by simp)

end SelectorLine

theorem classify_blockSelector (found : blockSelector? selector = some (blockType, suffix)) :
    StyleLine.classify selector = .block blockType suffix := by
  have line := selectorLine_of_blockSelector? found
  have ends := line.ends
  have noBrace := line.noBrace
  obtain ⟨c, rest, rfl, letter⟩ := line.starts
  rw [classify_letter letter ends]
  simp [StyleLine.atMargin, compactParts?_eq_none ends fun both => noBrace both.1, found]

def oneLineRule (selector property value : Text) : Text :=
  selector ++ ' ' :: '{' :: ' ' :: (property ++ ':' :: ' ' :: (value ++ [' ', '}']))

theorem IsPropertyName.nameChars (named : IsPropertyName property) :
    ∀ c ∈ property, isNameChar c = true := by
  obtain ⟨c, rest, rfl, start, chars⟩ := named
  intro d member
  rcases List.mem_cons.mp member with rfl | later
  · exact isNameChar_of_isPropertyStart start
  · exact chars d later

theorem compactParts?_oneLineRule (line : SelectorLine selector blockType suffix)
    (named : IsPropertyName property) (valued : IsValue value) :
    StyleLine.compactParts? (oneLineRule selector property value) =
      some (selector, property ++ ':' :: ' ' :: value) := by
  have split : splitAtFirst? '{' (oneLineRule selector property value) =
      some (selector ++ [' '], ' ' :: (property ++ ':' :: ' ' :: (value ++ [' ', '}']))) :=
    splitAtFirst?_eq_some_iff.mpr ⟨by simp [oneLineRule], by simp [line.noBrace]⟩
  have inside : ' ' :: (property ++ ':' :: ' ' :: (value ++ [' ', '}'])) =
      [' '] ++ ((property ++ ':' :: ' ' :: value) ++ [' ']) ++ ['}'] := by simp
  have closed : EndsFilled ([' '] ++ ((property ++ ':' :: ' ' :: value) ++ [' ']) ++ ['}']) :=
    endsFilled_concat.mpr rfl
  have outer : trim (selector ++ [' ']) = selector := by
    have ends := line.ends
    obtain ⟨c, rest, rfl, letter⟩ := line.starts
    have solid : isBlank c = false := isBlank_of_isNameChar (isNameChar_of_isLetter letter)
    rw [trim_blanks_behind (by decide), trim_eq_self (startsFilled_cons.mpr solid) ends]
  have inner : trim ([' '] ++ ((property ++ ':' :: ' ' :: value) ++ [' '])) =
      property ++ ':' :: ' ' :: value := by
    rw [trim_append_blanks (by decide), trim_blanks_behind (by decide)]
    refine trim_eq_self ?_ (pair_ends valued)
    obtain ⟨c, rest, rfl, start, _⟩ := named
    exact startsFilled_cons.mpr (isBlank_of_isNameChar (isNameChar_of_isPropertyStart start))
  simp only [StyleLine.compactParts?, split, inside, trimEnd_eq_self closed, List.getLast?_concat,
    List.dropLast_concat, outer, inner, if_true]

theorem compactDeclarations_pair (named : IsPropertyName property) (valued : IsValue value)
    (noSemicolon : ';' ∉ value) :
    compactDeclarations (property ++ ':' :: ' ' :: value) = [(property, value)] := by
  have chars := named.nameChars
  have absent : ∀ d, isNameChar d = false → d ∉ property := fun d outside member =>
    ne_of_class (chars d member) outside rfl
  have whole : (property ++ ':' :: ' ' :: value).splitOn ';' = [property ++ ':' :: ' ' :: value] :=
    List.splitOn_eq_singleton (by simp [absent ';' rfl, noSemicolon])
  have split : splitAtFirst? ':' (property ++ ':' :: ' ' :: value) = some (property, ' ' :: value) :=
    splitAtFirst?_eq_some_iff.mpr ⟨rfl, absent ':' rfl⟩
  have name : trim property = property := trim_eq_self
    (fun c first => isBlank_of_isNameChar (chars c (List.mem_of_mem_head? first)))
    (fun c last => isBlank_of_isNameChar (chars c (List.mem_of_getLast? last)))
  have text : trim (' ' :: value) = value := calc
    trim (' ' :: value) = trim ([' '] ++ value) := rfl
    _ = trim value := trim_append_blanks (by decide)
    _ = value := valued.2.1
  have present : property ≠ [] := by
    obtain ⟨c, rest, rfl, _⟩ := named
    simp
  simp [compactDeclarations, whole, split, name, text, present, valued.1]

theorem afterMark_other {mark : Char} {allowed : Char → Bool} (other : ∀ c ∈ t.head?, c ≠ mark) :
    afterMark mark allowed t = (none, t) := by
  cases t with
  | nil => rfl
  | cons c rest => simp [afterMark, other c rfl]

theorem afterMark_nothing {mark : Char} {allowed : Char → Bool}
    (stop : ∀ c ∈ rest.head?, allowed c = false) :
    afterMark mark allowed (mark :: rest) = (none, mark :: rest) := by
  have taken : ([] ++ rest).takeWhile allowed = [] := (takeWhile_append_stop (by simp) stop).1
  rw [List.nil_append] at taken
  simp [afterMark, taken]

theorem afterMark_piece {mark : Char} {allowed : Char → Bool} (present : text ≠ [])
    (chars : ∀ c ∈ text, allowed c = true) (stop : ∀ c ∈ rest.head?, allowed c = false) :
    afterMark mark allowed (mark :: (text ++ rest)) = (some text, rest) := by
  obtain ⟨taken, left⟩ := takeWhile_append_stop chars stop
  simp [afterMark, taken, left, present]

theorem afterMark_last {mark : Char} {allowed : Char → Bool} (present : text ≠ [])
    (chars : ∀ c ∈ text, allowed c = true) :
    afterMark mark allowed (mark :: text) = (some text, []) := by
  have piece : afterMark mark allowed (mark :: (text ++ [])) = (some text, []) :=
    afterMark_piece present chars (by simp)
  rwa [List.append_nil] at piece

theorem selectorTail?_pseudo (present : text ≠ []) (chars : ∀ c ∈ text, isSuffixChar c = true) :
    selectorTail? (':' :: text) = some ⟨none, some text, none⟩ := by
  have allowed : ∀ c ∈ text, isPseudoChar c = true := fun c member => by
    simp [isPseudoChar, chars c member]
  have part : afterMark '.' isNameChar (':' :: text) = (none, ':' :: text) :=
    afterMark_other (by simp)
  have pseudo : afterMark ':' isPseudoChar (':' :: text) = (some text, []) :=
    afterMark_last present allowed
  simp [selectorTail?, part, pseudo]

theorem selectorTail?_eq_none (present : t ≠ []) (noPart : ∀ c ∈ t.head?, c ≠ '.')
    (noPseudo : afterMark ':' isPseudoChar t = (none, t))
    (noAngle : (trimStart t).head? ≠ some '>') : selectorTail? t = none := by
  simp only [selectorTail?, afterMark_other noPart, noPseudo, if_neg present]
  split
  · rename_i rest angle
    simp [angle] at noAngle
  · rfl

theorem labelAndTail?_name (present : text ≠ []) (chars : ∀ c ∈ text, isNameChar c = true) :
    labelAndTail? (':' :: text) = some (some text, ⟨none, none, none⟩) := by
  have label : afterMark ':' isNameChar (':' :: text) = (some text, []) :=
    afterMark_last present chars
  simp only [labelAndTail?, label]
  rfl

-- The name in front stops at a character that begins no piece, so the whole is a pseudo-class.
theorem labelAndTail?_pseudo (present : text ≠ []) (chars : ∀ c ∈ text, isSuffixChar c = true)
    (noName : ¬∀ c ∈ text, isNameChar c = true) :
    labelAndTail? (':' :: text) = some (none, ⟨none, some text, none⟩) := by
  have whole := selectorTail?_pseudo present chars
  have cut : text.takeWhile isNameChar ++ text.dropWhile isNameChar = text :=
    List.takeWhile_append_dropWhile
  cases left : text.dropWhile isNameChar with
  | nil => exact absurd (List.dropWhile_eq_nil_iff.mp left) noName
  | cons c rest =>
    have stop : isNameChar c = false := by
      simpa [left] using List.head?_dropWhile_not isNameChar text
    have allowed : isSuffixChar c = true := chars c (by rw [← cut, left]; simp)
    rw [left] at cut
    by_cases bare : text.takeWhile isNameChar = []
    · rw [bare, List.nil_append] at cut
      have label : afterMark ':' isNameChar (':' :: text) = (none, ':' :: text) :=
        afterMark_nothing (by simpa [← cut] using stop)
      simp only [labelAndTail?, label, whole]
    · have label : afterMark ':' isNameChar (':' :: (text.takeWhile isNameChar ++ c :: rest)) =
          (some (text.takeWhile isNameChar), c :: rest) :=
        afterMark_piece bare (fun _ => List.mem_takeWhile_imp) (by simpa using stop)
      have stuck : selectorTail? (c :: rest) = none := by
        have noDot : c ≠ '.' := ne_of_class allowed rfl
        have noColon : c ≠ ':' := ne_of_class allowed rfl
        have noAngle : c ≠ '>' := ne_of_class allowed rfl
        refine selectorTail?_eq_none (by simp) (by simpa using noDot)
          (afterMark_other (by simpa using noColon)) ?_
        rw [trimStart_eq_self (startsFilled_cons.mpr (isBlank_of_isSuffixChar allowed))]
        simpa using noAngle
      rw [cut] at label
      simp [labelAndTail?, label, stuck, whole]

theorem isBlank_of_isPseudoChar (pseudo : isPseudoChar c = true) : isBlank c = false := by
  simp only [isPseudoChar, Bool.or_eq_true, beq_iff_eq] at pseudo
  rcases pseudo with suffix | rfl
  · exact isBlank_of_isSuffixChar suffix
  · rfl

theorem labelAndTail?_gap {before after : Text} (gapBefore : ∀ c ∈ before, isBlank c = true)
    (gapAfter : ∀ c ∈ after, isBlank c = true) (gap : before ≠ [] ∨ after ≠ []) :
    labelAndTail? (before ++ ':' :: (after ++ text)) = none := by
  have colon : (trimStart (before ++ ':' :: (after ++ text))).head? ≠ some '>' := by
    rw [trimStart_append_blanks gapBefore, trimStart_eq_self (startsFilled_cons.mpr rfl)]
    simp
  cases before with
  | nil =>
    obtain ⟨b, after, rfl⟩ := List.exists_cons_of_ne_nil (gap.resolve_left (by simp))
    have blank : isBlank b = true := gapAfter b (by simp)
    have label : afterMark ':' isNameChar (':' :: (b :: after ++ text)) =
        (none, ':' :: (b :: after ++ text)) :=
      afterMark_nothing (by simpa using false_of_isBlank isBlank_of_isNameChar blank)
    have tail : selectorTail? (':' :: (b :: after ++ text)) = none :=
      selectorTail?_eq_none (by simp) (by simp)
        (afterMark_nothing (by simpa using false_of_isBlank isBlank_of_isPseudoChar blank)) colon
    simp only [labelAndTail?, List.nil_append, label, tail]
    rfl
  | cons b before =>
    have blank : isBlank b = true := gapBefore b (by simp)
    have other : ∀ mark, isBlank mark = false → ∀ d ∈ (b :: before ++ ':' :: (after ++ text)).head?,
        d ≠ mark := by
      intro mark solid d first
      cases first
      exact ne_of_class blank solid
    have label : afterMark ':' isNameChar (b :: before ++ ':' :: (after ++ text)) =
        (none, b :: before ++ ':' :: (after ++ text)) := afterMark_other (other ':' rfl)
    have tail := selectorTail?_eq_none (by simp) (other '.' rfl) (afterMark_other (other ':' rfl)) colon
    simp only [labelAndTail?, label, tail]
    rfl

theorem takeBlockType?_append (valid : isBlockType blockType = true)
    (stop : ∀ c ∈ rest.head?, isPathChar c = false) :
    takeBlockType? (blockType ++ rest) = some (blockType, rest) := by
  obtain ⟨taken, left⟩ := takeWhile_append_stop (isPathChar_of_isBlockType valid) stop
  simp [takeBlockType?, taken, left, valid]

-- A suffix that is read as a name or as a pseudo-class in both notations.
def IsCommonSuffix (text : Text) : Prop :=
  (∀ c ∈ text, isNameChar c = true) ∨ isPseudoClass text = true

theorem gaps_empty_iff {before after : Text} (valid : isBlockType blockType = true)
    (gapBefore : ∀ c ∈ before, isBlank c = true) (gapAfter : ∀ c ∈ after, isBlank c = true)
    (chars : ∀ c ∈ text, isSuffixChar c = true) :
    (∀ c ∈ blockType ++ (before ++ ':' :: (after ++ text)), isBlank c = false) ↔
      before = [] ∧ after = [] := by
  constructor
  · intro solid
    have empty : ∀ gap : Text, gap ⊆ blockType ++ (before ++ ':' :: (after ++ text)) →
        (∀ c ∈ gap, isBlank c = true) → gap = [] := by
      intro gap inside blank
      refine List.eq_nil_iff_forall_not_mem.mpr fun c member => ?_
      exact ne_of_class (blank c member) (solid c (inside member)) rfl
    exact ⟨empty before (fun c member => by simp [member]) gapBefore,
      empty after (fun c member => by simp [member]) gapAfter⟩
  · rintro ⟨rfl, rfl⟩ c member
    simp only [List.nil_append, List.mem_append, List.mem_cons] at member
    rcases member with inType | rfl | inText
    · exact isBlank_of_isPathChar (isPathChar_of_isBlockType valid c inType)
    · rfl
    · exact isBlank_of_isSuffixChar (chars c inText)

theorem compactAddress?_pseudo (line : SelectorLine selector blockType (some text))
    (solid : ∀ c ∈ selector, isBlank c = false) (noName : ¬∀ c ∈ text, isNameChar c = true) :
    compactAddress? selector = some ⟨blockType, selfTarget ++ ':' :: text, none⟩ := by
  cases line with
  | @suffixed blockType before after text valid gapBefore gapAfter present chars =>
    obtain ⟨rfl, rfl⟩ := (gaps_empty_iff valid gapBefore gapAfter chars).mp solid
    have colon : isPathChar ':' = false := rfl
    have taken : takeBlockType? (blockType ++ ':' :: text) = some (blockType, ':' :: text) :=
      takeBlockType?_append valid (by simpa using colon)
    simp [compactAddress?, taken, labelAndTail?_pseudo present chars noName,
      SelectorTail.target?]

theorem compactAddress?_common (line : SelectorLine selector blockType suffix)
    (solid : ∀ c ∈ selector, isBlank c = false) (common : ∀ text ∈ suffix, IsCommonSuffix text) :
    compactAddress? selector = some (Context.ofSelector blockType suffix).address := by
  cases suffix with
  | none =>
    cases line with
    | plain valid =>
      have taken : takeBlockType? (selector ++ []) = some (selector, []) :=
        takeBlockType?_append valid (by simp)
      rw [List.append_nil] at taken
      simp only [compactAddress?, taken]
      rfl
  | some text =>
    by_cases names : ∀ c ∈ text, isNameChar c = true
    · cases line with
      | @suffixed blockType before after text valid gapBefore gapAfter present chars =>
        obtain ⟨rfl, rfl⟩ := (gaps_empty_iff valid gapBefore gapAfter chars).mp solid
        have colon : isPathChar ':' = false := rfl
        have taken : takeBlockType? (blockType ++ ':' :: text) = some (blockType, ':' :: text) :=
          takeBlockType?_append valid (by simpa using colon)
        simp only [compactAddress?, List.nil_append, taken]
        cases pseudo : isPseudoClass text <;>
          simp [labelAndTail?_name present names, pseudo, Context.ofSelector, suffixScope,
            Context.address, SelectorTail.target?]
    · have pseudo : isPseudoClass text = true := (common text rfl).resolve_left names
      rw [compactAddress?_pseudo line solid names]
      simp [pseudo, Context.ofSelector, suffixScope, Context.address]

theorem compactAddress?_gap (line : SelectorLine selector blockType suffix)
    (gap : ¬∀ c ∈ selector, isBlank c = false) : compactAddress? selector = none := by
  cases line with
  | plain valid =>
    exact absurd (fun c member => isBlank_of_isPathChar (isPathChar_of_isBlockType valid c member)) gap
  | @suffixed blockType before after text valid gapBefore gapAfter present chars =>
    rw [gaps_empty_iff valid gapBefore gapAfter chars] at gap
    have stop : ∀ c ∈ (before ++ ':' :: (after ++ text)).head?, isPathChar c = false := by
      intro c first
      cases before with
      | nil =>
        cases first
        rfl
      | cons b before =>
        cases first
        exact false_of_isBlank isBlank_of_isPathChar (gapBefore c (by simp))
    simp only [compactAddress?, takeBlockType?_append valid stop,
      labelAndTail?_gap gapBefore gapAfter (Decidable.not_and_iff_or_not.mp gap)]

def nestedRule (selector property value : Text) : Text :=
  joinLines [selector, spaces 2 ++ property ++ ':' :: ' ' :: value]

theorem classify_oneLineRule (line : SelectorLine selector blockType suffix)
    (named : IsPropertyName property) (valued : IsValue value) :
    StyleLine.classify (oneLineRule selector property value) =
      .compact selector (property ++ ':' :: ' ' :: value) := by
  have parts := compactParts?_oneLineRule line named valued
  have closed : EndsFilled (oneLineRule selector property value) := by
    have whole : oneLineRule selector property value =
        (selector ++ ' ' :: '{' :: ' ' :: (property ++ ':' :: ' ' :: (value ++ [' ']))) ++ ['}'] := by
      simp [oneLineRule]
    exact whole ▸ endsFilled_concat.mpr rfl
  obtain ⟨c, rest, rfl, letter⟩ := line.starts
  rw [oneLineRule, List.cons_append] at parts closed ⊢
  rw [classify_letter letter closed, StyleLine.atMargin, parts]

theorem ofBody_oneLineRule (line : SelectorLine selector blockType suffix) (plain : '\n' ∉ selector)
    (named : IsPropertyName property) (valued : IsValue value) (noSemicolon : ';' ∉ value) :
    Graph.ofBody (oneLineRule selector property value) =
      Graph.empty.setProperty ((compactAddress? selector).getD ⟨rawType, selector, none⟩)
        property value := by
  have oneLine : splitLines (oneLineRule selector property value) =
      [oneLineRule selector property value] :=
    List.splitOn_eq_singleton (by simp [oneLineRule, plain, named.oneLine, valued.2.2])
  rw [Graph.ofBody, oneLine, Graph.ofLines, List.foldl_cons, List.foldl_nil, Reading.next,
    classify_oneLineRule line named valued, Reading.read,
    compactDeclarations_pair named valued noSemicolon]
  rfl

theorem ofBody_nestedRule (found : blockSelector? selector = some (blockType, suffix))
    (plain : '\n' ∉ selector) (named : IsPropertyName property) (valued : IsValue value)
    (noSemicolon : ';' ∉ value) :
    Graph.ofBody (nestedRule selector property value) =
      Graph.empty.setProperty (Context.ofSelector blockType suffix).address property value := by
  have canonical : CanonicalProperty property value :=
    ⟨named, valued, fun last => noSemicolon (List.mem_of_getLast? last)⟩
  have lines : splitLines (nestedRule selector property value) =
      [selector, spaces 2 ++ property ++ ':' :: ' ' :: value] := by
    have below : '\n' ∉ spaces 2 ++ property ++ ':' :: ' ' :: value :=
      newline_notMem_pair (by simp [newline_notMem_spaces, named.oneLine]) valued.2.2
    refine splitLines_joinLines (by simp) fun line member => ?_
    simp only [List.mem_cons, List.not_mem_nil, or_false] at member
    rcases member with rfl | rfl
    · exact plain
    · exact below
  have first := classify_blockSelector found
  have second := classify_property (n := 2) (by decide) canonical
  simp only [Graph.ofBody, lines, Graph.ofLines, List.foldl_cons, List.foldl_nil, Reading.next, first,
    second]
  rfl

theorem notations_agree (found : blockSelector? selector = some (blockType, suffix))
    (named : IsPropertyName property) (valued : IsValue value) (noSemicolon : ';' ∉ value) :
    ((∀ c ∈ selector, isBlank c = false) → (∀ text ∈ suffix, IsCommonSuffix text) →
      Graph.ofBody (oneLineRule selector property value) =
        Graph.ofBody (nestedRule selector property value)) ∧
    ('\n' ∉ selector → (∃ c ∈ selector, isBlank c = true) →
      Graph.ofBody (oneLineRule selector property value) =
        Graph.empty.setProperty ⟨rawType, selector, none⟩ property value) := by
  have line := selectorLine_of_blockSelector? found
  constructor
  · intro solid common
    have plain : '\n' ∉ selector := fun member => absurd (solid _ member) (by decide)
    rw [ofBody_oneLineRule line plain named valued noSemicolon,
      ofBody_nestedRule found plain named valued noSemicolon,
      compactAddress?_common line solid common, Option.getD_some]
  · rintro plain ⟨c, member, blank⟩
    have gap : ¬∀ c ∈ selector, isBlank c = false := fun solid =>
      ne_of_class blank (solid c member) rfl
    rw [ofBody_oneLineRule line plain named valued noSemicolon, compactAddress?_gap line gap,
      Option.getD_none]

-- A suffix with a plus sign or a closing parenthesis, but without an opening one, is a label on a line
-- of its own; a one-line rule takes it for a pseudo-class.
theorem label_read_as_pseudo (found : blockSelector? selector = some (blockType, some text))
    (solid : ∀ c ∈ selector, isBlank c = false) (uncommon : ¬IsCommonSuffix text)
    (named : IsPropertyName property) (valued : IsValue value) (noSemicolon : ';' ∉ value) :
    Graph.ofBody (oneLineRule selector property value) =
        Graph.empty.setProperty ⟨blockType, selfTarget ++ ':' :: text, none⟩ property value ∧
      Graph.ofBody (nestedRule selector property value) =
        Graph.empty.setProperty ⟨blockType, selfTarget, some text⟩ property value := by
  have line := selectorLine_of_blockSelector? found
  have plain : '\n' ∉ selector := fun member => absurd (solid _ member) (by decide)
  obtain ⟨noName, noPseudo⟩ := not_or.mp uncommon
  constructor
  · rw [ofBody_oneLineRule line plain named valued noSemicolon,
      compactAddress?_pseudo line solid noName, Option.getD_some]
  · rw [ofBody_nestedRule found plain named valued noSemicolon]
    simp [noPseudo, Context.ofSelector, suffixScope, Context.address]

def nthCard : Text := "core/card:nth-child(2)".toList

def spacedCard : Text := "core/card : s1".toList

theorem notations_agree_nthCard :
    (blockSelector? nthCard = some ("core/card".toList, some "nth-child(2)".toList) ∧
      (∀ c ∈ nthCard, isBlank c = false) ∧ IsCommonSuffix "nth-child(2)".toList ∧
      Graph.ofBody (oneLineRule nthCard "color".toList "red".toList) =
        Graph.ofBody (nestedRule nthCard "color".toList "red".toList)) ∧
    blockSelector? spacedCard = some ("core/card".toList, some "s1".toList) ∧
      (∃ c ∈ spacedCard, isBlank c = true) ∧
      Graph.ofBody (oneLineRule spacedCard "color".toList "red".toList) =
        Graph.empty.setProperty ⟨rawType, spacedCard, none⟩ "color".toList "red".toList := by
  have nth : blockSelector? nthCard = some ("core/card".toList, some "nth-child(2)".toList) := by
    decide +kernel
  have spaced : blockSelector? spacedCard = some ("core/card".toList, some "s1".toList) := by
    decide +kernel
  have named : IsPropertyName "color".toList := by decide +kernel
  have valued : IsValue "red".toList := by decide +kernel
  have solid : ∀ c ∈ nthCard, isBlank c = false := by decide +kernel
  have common : IsCommonSuffix "nth-child(2)".toList := .inr (by decide)
  have gap : ∃ c ∈ spacedCard, isBlank c = true := ⟨' ', by decide, rfl⟩
  refine ⟨⟨nth, solid, common, ?_⟩, spaced, gap, ?_⟩
  · refine (notations_agree nth named valued (by decide)).1 solid fun text given => ?_
    cases given
    exact common
  · exact (notations_agree spaced named valued (by decide)).2 (by decide) gap

theorem notations_differ :
    IsPropertyName "color".toList ∧ IsValue "red".toList ∧
    blockSelector? "core/card : s1".toList = some ("core/card".toList, some "s1".toList) ∧
    Graph.ofBody "core/card : s1 \x7b color: red \x7d".toList ≠
      Graph.ofBody "core/card : s1\n  color: red".toList ∧
    blockSelector? "core/card:a+b".toList = some ("core/card".toList, some "a+b".toList) ∧
    Graph.ofBody "core/card:a+b \x7b color: red \x7d".toList ≠
      Graph.ofBody "core/card:a+b\n  color: red".toList := by
  decide +kernel

end BlockMarkup.Style
