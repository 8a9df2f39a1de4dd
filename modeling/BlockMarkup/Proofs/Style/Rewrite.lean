import BlockMarkup.Proofs.Style.ReadBack
import BlockMarkup.Proofs.Style.ReadGraph
import Mathlib.Data.List.MinMax

namespace BlockMarkup.Style

variable {n : Nat} {graph other : Graph} {line t : Text}

theorem not_of_greater {α : Type} {items : List α} {Q : α → Prop} (weight : α → Nat)
    (greater : ∀ item ∈ items, Q item → ∃ next ∈ items, Q next ∧ weight item < weight next) :
    ∀ item ∈ items, ¬Q item := by
  classical
  intro item member holds
  have present : items.filter Q ≠ [] :=
    List.ne_nil_of_mem (List.mem_filter.mpr ⟨member, by simpa using holds⟩)
  obtain ⟨top, greatest⟩ := Option.ne_none_iff_exists'.mp
    (mt (List.argmax_eq_none (f := weight)).mp present)
  obtain ⟨inside, passes⟩ := List.mem_filter.mp (List.argmax_mem greatest)
  obtain ⟨next, later, again, more⟩ := greater top inside (by simpa using passes)
  have most := List.le_of_mem_argmax (List.mem_filter.mpr ⟨later, by simpa using again⟩) greatest
  omega

theorem rawSelector_eq_self (ends : EndsFilled t) (noBrace : t.getLast? ≠ some '{') :
    StyleLine.rawSelector t = t := by
  have kept : (t.reverse.dropWhile fun c => c == '{').reverse = t := by
    refine List.rdropWhile_eq_self_iff.mpr fun present => ?_
    simpa [List.getLast?_eq_some_getLast present] using noBrace
  rw [StyleLine.rawSelector, kept, trimEnd_eq_self ends]

theorem rawSelector_lt (brace : t.getLast? = some '{') :
    (StyleLine.rawSelector t).length < t.length := by
  obtain ⟨front, rfl⟩ := List.getLast?_eq_some_iff.mp brace
  have shorter : (StyleLine.rawSelector (front ++ ['{'])).length ≤ front.length := by
    rw [StyleLine.rawSelector, List.reverse_concat, List.dropWhile_cons_of_pos (by simp)]
    exact (prefix_trimEnd _).length_le.trans
      (List.rdropWhile_prefix (fun c => c == '{') front).length_le
  rw [List.length_append, List.length_singleton]
  omega

def StyleLine.Inside : StyleLine → Prop
  | .skipped | .unknown | .nested _ _ | .declaration _ _ => True
  | _ => False

theorem inside_indented (indent : Nat) (content : Text) :
    (StyleLine.indented indent content).Inside := by
  unfold StyleLine.indented
  split
  · trivial
  · split <;> trivial

theorem inside_of_blank {c : Char} (blank : isBlank c = true) (rest : Text) :
    (StyleLine.classify (c :: rest)).Inside := by
  have split := dropReturn_append_finalReturn (c :: rest)
  simp only [StyleLine.classify]
  generalize dropReturn (c :: rest) = text at split ⊢
  cases text with
  | nil => trivial
  | cons d text =>
    obtain ⟨rfl, _⟩ := List.cons.inj split
    have indented : StyleLine.indentWidth ((d :: text).takeWhile isBlank) ≠ 0 := by
      simp [StyleLine.indentWidth, blank]
    rw [if_neg indented]
    split
    · trivial
    · exact inside_indented _ _

theorem inside_spaces (positive : 0 < n) (t : Text) : (StyleLine.classify (spaces n ++ t)).Inside := by
  obtain ⟨width, rfl⟩ := Nat.exists_eq_succ_of_ne_zero (Nat.pos_iff_ne_zero.mp positive)
  rw [spaces, List.replicate_succ, List.cons_append]
  exact inside_of_blank (by decide) _

theorem selector_of_written (positive : 0 < n) (asRead : graph.AsRead)
    (written : WrittenLine n graph line)
    (kind : (∃ selector, StyleLine.classify line = .raw selector) ∨
      ∃ selector declarations, StyleLine.classify line = .compact selector declarations) :
    ∃ rule ∈ graph.rules, rule.isRaw = true ∧ rule.address.target = line := by
  have outside : ¬(StyleLine.classify line).Inside := by
    rcases kind with ⟨_, same⟩ | ⟨_, _, same⟩ <;> exact same ▸ id
  cases written with
  | binding member =>
    rw [classify_variable (asRead.bindings _ member)] at kind
    simp at kind
  | @scope rule member grouped =>
    have readable := asRead.readable rule member
    rw [Address.Readable, if_neg (isRaw_eq_false_iff.mp grouped)] at readable
    rw [classify_scope readable.1 readable.2] at kind
    simp at kind
  | target _ _ _ => exact absurd (inside_spaces positive _) outside
  | @raw rule member kept => exact ⟨rule, member, kept, rfl⟩
  | property _ _ step =>
    rw [List.append_assoc] at outside
    exact absurd (inside_spaces (by omega) _) outside

-- Braces with blanks around them, which the reader takes for no selector at all.
def Braces (t : Text) : Prop := t ≠ [] ∧ ∀ c ∈ t, c = '{' ∨ isBlank c = true

theorem mem_rawSelector_or {c : Char} (member : c ∈ t) :
    c ∈ StyleLine.rawSelector t ∨ c = '{' ∨ isBlank c = true := by
  have reversed : c ∈ t.reverse := List.mem_reverse.mpr member
  rw [← List.takeWhile_append_dropWhile (p := fun c => c == '{') (l := t.reverse)] at reversed
  rcases List.mem_append.mp reversed with brace | kept
  · have isBrace := List.mem_takeWhile_imp brace
    exact .inr (.inl (by simpa using isBrace))
  · exact (mem_trimEnd_or_blank (List.mem_reverse.mpr kept)).imp_right .inr

theorem mem_line_or {c : Char} (member : c ∈ line) :
    c ∈ StyleLine.rawSelector (trim (dropReturn line)) ∨ c = '{' ∨ isBlank c = true := by
  rcases mem_dropReturn_or_blank member with inside | blank
  · rcases mem_trim_or_blank inside with inside | blank
    · exact mem_rawSelector_or inside
    · exact .inr (.inr blank)
  · exact .inr (.inr blank)

theorem Braces.getLast? (braces : Braces t) (ends : EndsFilled t) : t.getLast? = some '{' := by
  have last := List.getLast?_eq_some_getLast braces.1
  rcases braces.2 _ (List.getLast_mem braces.1) with brace | blank
  · rw [last, brace]
  · rw [ends _ last] at blank
    cases blank

theorem Braces.longer (braces : Braces (StyleLine.rawSelector (trim (dropReturn line)))) :
    Braces line ∧
      (StyleLine.rawSelector (trim (dropReturn line))).length < line.length := by
  have ends := endsFilled_trim (dropReturn line)
  have within : StyleLine.rawSelector (trim (dropReturn line)) ⊆ line := fun c member =>
    dropReturn_subset _ (trim_subset _ (rawSelector_subset _ member))
  refine ⟨⟨fun empty => ?_, fun c member => ?_⟩, ?_⟩
  · obtain ⟨c, member⟩ := List.exists_mem_of_ne_nil _ braces.1
    have inside := within member
    simp [empty] at inside
  · rcases mem_line_or member with inside | other
    · exact braces.2 c inside
    · exact other
  · have brace : (trim (dropReturn line)).getLast? = some '{' := by
      by_contra noBrace
      have same := rawSelector_eq_self ends noBrace
      rw [same] at braces
      exact noBrace (braces.getLast? ends)
    have shorter := rawSelector_lt brace
    have whole := trim_length_le (dropReturn line)
    have split := congrArg List.length (dropReturn_append_finalReturn line)
    rw [List.length_append] at split
    omega

-- Some kept selector of the graph has the same form and is longer.
def Graph.Outgrows (graph : Graph) (target : Text) : Prop :=
  Braces target → ∃ longer ∈ graph.rules, longer.isRaw = true ∧
    Braces longer.address.target ∧ target.length < longer.address.target.length

theorem longer_of_braces (positive : 0 < n) (asRead : graph.AsRead) :
    ∀ rule ∈ (Graph.ofLines (graph.toLines n)).rules, rule.address.blockType = rawType →
      graph.Outgrows rule.address.target := by
  refine raws_ofLines (R := graph.Outgrows) (Q := fun _ target => graph.Outgrows target)
    (fun _ _ => id) ?_ ?_ ?_
  · intro line member selector kind braces
    obtain ⟨rule, present, kept, rfl⟩ :=
      selector_of_written positive asRead (writtenLine_of_toLines member) (.inl ⟨selector, kind⟩)
    rw [raw_of_classify kind] at braces ⊢
    exact ⟨rule, present, kept, braces.longer.1, braces.longer.2⟩
  · intro line member selector declarations kind braces
    -- The selector of a one-line rule stands before the first brace.
    obtain ⟨_, _, _, noBrace, rfl, _⟩ :=
      compactParts?_eq_some (endsFilled_trim _) (compact_of_classify kind)
    have brace := List.mem_of_getLast? (braces.getLast? (endsFilled_trim _))
    exact absurd (mem_of_mem_trim brace) noBrace
  · intro line member indent selector kind base target _
    obtain ⟨_, mark, rest, rfl, isMark⟩ := nested_of_classify kind
    have noBraces : ∀ front : Text, ¬Braces (front ++ mark :: rest) := by
      intro front braces
      rcases isMark with rfl | rfl | rfl
      all_goals
        rcases braces.2 _ (List.mem_append_right front (List.mem_cons_self ..)) with same | blank
        · cases same
        · cases blank
    refine ⟨fun _ braces => absurd braces (noBraces base), fun _ braces => ?_⟩
    rw [← List.singleton_append, ← List.append_assoc] at braces
    exact absurd braces (noBraces _)

theorem Graph.Shows.of_alike {P : Address → Text → Text → Prop} (shows : other.Shows P)
    (alike : other.Alike graph) (distinct : graph.Distinct) (others : other.Distinct) :
    graph.Shows P := by
  intro rule member entry inside
  have mine := (property?_eq_some_iff distinct).mpr ⟨rule, member, rfl, inside⟩
  rw [← alike.properties] at mine
  obtain ⟨found, present, same, entries⟩ := (property?_eq_some_iff others).mp mine
  exact same ▸ shows found present _ entries

structure Graph.ReadsBack (n : Nat) (graph : Graph) : Prop where
  positive : 0 < n
  asRead : graph.AsRead
  alike : (Graph.ofLines (graph.toLines n)).Alike graph
  shown : ∀ rule ∈ graph.rules, rule.isRaw = true →
    StyleLine.classify rule.address.target ≠ .skipped

theorem Graph.ReadsBack.shows {P : Address → Text → Text → Prop} (back : graph.ReadsBack n)
    (shows : (Graph.ofLines (graph.toLines n)).Shows P) : graph.Shows P :=
  shows.of_alike back.alike back.asRead.distinct (distinct_ofLines _)

theorem Graph.ReadsBack.addresses {A : Address → Prop} (back : graph.ReadsBack n)
    (read : ∀ rule ∈ (Graph.ofLines (graph.toLines n)).rules, A rule.address) :
    ∀ rule ∈ graph.rules, A rule.address := by
  intro rule member
  obtain ⟨entry, inside⟩ := List.exists_mem_of_ne_nil _ (back.asRead.distinct.filled rule member)
  exact back.shows (P := fun address _ _ => A address) (fun rule member _ _ => read rule member)
    rule member entry inside

theorem Graph.ReadsBack.raws {R : Text → Prop} (back : graph.ReadsBack n)
    (read : ∀ rule ∈ (Graph.ofLines (graph.toLines n)).rules,
      rule.address.blockType = rawType → R rule.address.target) :
    ∀ rule ∈ graph.rules, rule.isRaw = true → R rule.address.target := by
  intro rule member kept
  have raw : rule.address.blockType = rawType := isRaw_iff.mp kept
  exact back.addresses (A := fun address => address.blockType = rawType → R address.target) read
    rule member raw

theorem Graph.ReadsBack.noBraces (back : graph.ReadsBack n) :
    ∀ rule ∈ graph.rules, rule.isRaw = true → ¬Braces rule.address.target := by
  have none : ∀ rule ∈ graph.rules, ¬(rule.isRaw = true ∧ Braces rule.address.target) := by
    refine not_of_greater (fun rule => rule.address.target.length) ?_
    rintro rule member ⟨kept, braces⟩
    obtain ⟨next, present, isRaw, again, more⟩ :=
      back.raws (longer_of_braces back.positive back.asRead) rule member kept braces
    exact ⟨next, present, ⟨isRaw, again⟩, more⟩
  exact fun rule member kept braces => none rule member ⟨kept, braces⟩

theorem Graph.ReadsBack.starts (back : graph.ReadsBack n) :
    ∀ rule ∈ graph.rules, rule.isRaw = true → StartsFilled rule.address.target := by
  refine back.raws (raws_ofLines (Q := fun base target =>
    base ≠ [] ∧ StartsFilled base ∧ StartsFilled target) (fun _ _ held => held.2.2) ?_ ?_ ?_)
  · intro line member selector kind
    have starts : StartsFilled selector := by
      rw [raw_of_classify kind]
      intro c first
      refine startsFilled_trim (dropReturn line) c ?_
      obtain ⟨rest, split⟩ := prefix_rawSelector (trim (dropReturn line))
      rw [← split, List.head?_append, first]
      rfl
    refine ⟨?_, starts, starts⟩
    rintro rfl
    obtain ⟨rule, present, kept, rfl⟩ := selector_of_written back.positive back.asRead
      (writtenLine_of_toLines member) (.inl ⟨[], kind⟩)
    refine back.noBraces rule present kept ⟨fun empty => ?_, fun c inside => ?_⟩
    · rw [empty] at kind
      cases kind
    · rcases mem_line_or inside with kept | other
      · rw [← raw_of_classify kind] at kept
        cases kept
      · exact other
  · intro line member selector declarations kind
    obtain ⟨_, _, _, _, rfl, _⟩ :=
      compactParts?_eq_some (endsFilled_trim _) (compact_of_classify kind)
    exact startsFilled_trim _
  · rintro line member indent selector kind base target ⟨present, starts, _⟩
    have extended : ∀ rest : Text, StartsFilled (base ++ rest) := by
      obtain ⟨c, more, rfl⟩ := List.exists_cons_of_ne_nil present
      exact fun rest => startsFilled_cons.mpr (startsFilled_cons.mp starts)
    exact ⟨fun _ => ⟨present, starts, extended _⟩, fun _ => ⟨present, starts, extended _⟩⟩

-- The selectors that are kept when the written lines are read: a line at the margin, the selector of
-- a one-line rule, or a line at the margin with a property nested under it that is none.
inductive Graph.Kept (graph : Graph) : Text → Prop where
  | line {rule : Rule} {selector : Text} (member : rule ∈ graph.rules) (kept : rule.isRaw = true)
      (kind : StyleLine.classify rule.address.target = .raw selector) : graph.Kept selector
  | compact {rule : Rule} {selector declarations : Text} (member : rule ∈ graph.rules)
      (kept : rule.isRaw = true)
      (kind : StyleLine.classify rule.address.target = .compact selector declarations) :
      graph.Kept selector
  | nested {rule : Rule} {selector : Text} {entry : Text × Text} (member : rule ∈ graph.rules)
      (kept : rule.isRaw = true) (kind : StyleLine.classify rule.address.target = .raw selector)
      (inside : entry ∈ rule.properties.entries) (odd : ¬IsPropertyName entry.1) :
      graph.Kept (selector ++ ' ' :: (entry.1 ++ ':' :: ' ' :: entry.2))

def Graph.OnOneLine (graph : Graph) (address : Address) (name value : Text) : Prop :=
  ∃ rule ∈ graph.rules, rule.isRaw = true ∧ ∃ selector declarations,
    StyleLine.classify rule.address.target = .compact selector declarations ∧
      address = (compactAddress? selector).getD ⟨rawType, selector, none⟩ ∧
      (name, value) ∈ compactDeclarations declarations

structure Graph.Origin (graph : Graph) (address : Address) (name value : Text) : Prop where
  kept : address.blockType = rawType → graph.Kept address.target
  named : IsPropertyName name ∨ graph.OnOneLine address name value

theorem read_atMargin (reading : Reading) (content : Text) :
    reading.read (StyleLine.atMargin content) =
      Reading.read ⟨reading.graph, none⟩ (StyleLine.atMargin content) := by
  unfold StyleLine.atMargin
  split
  · rfl
  split
  · rfl
  split
  · rfl
  · rfl

theorem outside_atMargin (content : Text) : ¬(StyleLine.atMargin content).Inside := by
  unfold StyleLine.atMargin
  split
  · exact id
  split
  · exact id
  split <;> exact id

theorem classify_pair {name value : Text} (positive : 0 < n) (read : ReadProperty name value) :
    StyleLine.classify (spaces n ++ name ++ ':' :: ' ' :: value) = .skipped ∨
      StyleLine.classify (spaces n ++ name ++ ':' :: ' ' :: value) = .unknown ∨
      (¬IsPropertyName name ∧ StyleLine.classify (spaces n ++ name ++ ':' :: ' ' :: value) =
        .nested n (name ++ ':' :: ' ' :: value)) ∨
      ∃ property text, IsPropertyName property ∧
        StyleLine.classify (spaces n ++ name ++ ':' :: ' ' :: value) = .declaration property text := by
  obtain ⟨c, rest, rfl⟩ := List.exists_cons_of_ne_nil read.present
  have solid : isBlank c = false :=
    startsFilled_cons.mp (trim_eq_self_iff.mp read.trimmed).1
  have ends : EndsFilled (c :: rest ++ ':' :: ' ' :: value) := pair_ends read.valued
  rw [List.append_assoc, List.cons_append] at *
  rw [classify_content solid ends,
    if_neg (Nat.pos_iff_ne_zero.mp positive)]
  split
  · exact .inl rfl
  unfold StyleLine.indented
  split
  · rename_i marked
    refine .inr (.inr (.inl ⟨?_, rfl⟩))
    rintro ⟨d, more, same, start, _⟩
    obtain ⟨rfl, rfl⟩ := List.cons.inj same
    simp only [List.head?_cons, Option.any_some, Bool.or_eq_true, beq_iff_eq] at marked
    rcases marked with (rfl | rfl) | rfl <;> cases start
  split
  · rename_i property text parts
    obtain ⟨_, _, _, _, named, _⟩ := declarationParts?_eq_some parts
    exact .inr (.inr (.inr ⟨property, text, named, rfl⟩))
  · exact .inr (.inl rfl)

def Graph.Below (graph : Graph) (rule : Rule) : Context → Prop :=
  Context.Keeps fun base target =>
    StyleLine.classify rule.address.target = .raw base ∧ graph.Kept target

theorem adds_selectorLine {rule : Rule} (member : rule ∈ graph.rules) (kept : rule.isRaw = true)
    (outside : ¬(StyleLine.classify rule.address.target).Inside) :
    (StyleLine.classify rule.address.target).Adds graph.Origin (graph.Below rule) := by
  cases kind : StyleLine.classify rule.address.target with
  | skipped => trivial
  | unknown => trivial
  | «variable» _ _ => trivial
  | nested _ _ =>
    rw [kind] at outside
    exact absurd trivial outside
  | declaration _ _ =>
    rw [kind] at outside
    exact absurd trivial outside
  | block blockType suffix =>
    have below : graph.Below rule (.ofSelector blockType suffix) := keeps_ofSelector kind
    exact below
  | raw selector => exact ⟨kind, .line member kept kind⟩
  | compact selector declarations =>
    intro declaration found
    refine ⟨fun raw => ?_, .inr ⟨rule, member, kept, selector, declarations, kind, rfl, found⟩⟩
    rw [target_of_compact raw]
    exact .compact member kept kind

theorem adds_propertyLine {rule : Rule} (positive : 0 < n) (asRead : graph.AsRead)
    (member : rule ∈ graph.rules) (kept : rule.isRaw = true) {entry : Text × Text}
    (inside : entry ∈ rule.properties.entries) :
    (StyleLine.classify (spaces n ++ entry.1 ++ ':' :: ' ' :: entry.2)).Adds graph.Origin
      (graph.Below rule) := by
  have read := asRead.properties rule member entry inside
  rcases classify_pair positive read with kind | kind | ⟨odd, kind⟩ | ⟨property, text, named, kind⟩
  all_goals rw [kind]
  · trivial
  · trivial
  · intro context keeps
    refine keeps.enter fun base target below => ⟨fun colon => ?_, fun _ => ?_⟩
    · -- A name has no colon.
      obtain ⟨c, rest, name⟩ := List.exists_cons_of_ne_nil read.present
      rw [name] at colon
      cases colon
      exact absurd (by simp [name]) read.noColon
    · exact ⟨below.1, .nested member kept below.1 inside odd⟩
  · intro context keeps
    refine ⟨fun raw => ?_, .inl named⟩
    cases context with
    | block _ _ _ _ => exact absurd raw keeps
    | raw base target => exact keeps.2

-- A kept selector with its properties: the context that its line leaves does not depend on what was
-- read before, and nothing below it changes which selector is kept.
theorem shows_chunk {rule : Rule} {reading : Reading} (positive : 0 < n) (asRead : graph.AsRead)
    (member : rule ∈ graph.rules) (kept : rule.isRaw = true)
    (margin : StyleLine.classify rule.address.target = StyleLine.atMargin rule.address.target)
    (shows : reading.graph.Shows graph.Origin) :
    ((rule.address.target :: propertyLines (spaces n) rule).foldl Reading.next
      reading).graph.Shows graph.Origin := by
  have before : (Reading.mk reading.graph none).Shows graph.Origin (graph.Below rule) :=
    ⟨shows, by simp⟩
  have first : (reading.next rule.address.target).Shows graph.Origin (graph.Below rule) := by
    have outside := outside_atMargin rule.address.target
    rw [← margin] at outside
    rw [Reading.next, margin, read_atMargin, ← margin]
    exact before.read (adds_selectorLine member kept outside)
  refine (shows_foldl ?_ first).graph
  intro line inLines
  obtain ⟨entry, inside, rfl⟩ := List.mem_map.mp inLines
  exact adds_propertyLine positive asRead member kept inside

theorem groupLines_cases {scope : Scope} (positive : 0 < n)
    (member : line ∈ graph.groupLines n scope) :
    (∃ rule ∈ graph.rules, rule.isRaw = false ∧ rule.scope.selector = line) ∨
      (StyleLine.classify line).Inside := by
  have indented : ∀ {rules : List Rule} {width : Nat}, 0 < width →
      line ∈ rules.flatMap (propertyLines (spaces width)) → (StyleLine.classify line).Inside := by
    intro rules width wide inLines
    obtain ⟨rule, _, found⟩ := List.mem_flatMap.mp inLines
    obtain ⟨⟨property, value⟩, _, rfl⟩ := List.mem_map.mp found
    dsimp only
    rw [List.append_assoc]
    exact inside_spaces wide _
  rw [Graph.groupLines] at member
  split at member
  · cases member
  rename_i filled
  rcases List.mem_cons.mp member with rfl | below
  · obtain ⟨rule, inside⟩ := List.exists_mem_of_ne_nil _ (mt List.isEmpty_iff.mpr filled)
    obtain ⟨grouped, same⟩ := List.mem_filter.mp inside
    obtain ⟨present, isBlock, _⟩ := mem_groupedRules grouped
    exact .inl ⟨rule, present, isBlock, by rw [show rule.scope = scope by simpa using same]⟩
  rcases List.mem_append.mp below with roots | others
  · exact .inr (indented positive roots)
  · obtain ⟨rule, _, inLines⟩ := List.mem_flatMap.mp others
    rcases List.mem_cons.mp inLines with rfl | inLines
    · exact .inr (inside_spaces positive _)
    · have wide : 0 < n * 2 := by omega
      exact .inr (indented wide (List.mem_flatMap.mpr ⟨rule, List.mem_singleton_self rule, inLines⟩))

theorem adds_inside (inside : (StyleLine.classify line).Inside) :
    (StyleLine.classify line).Adds graph.Origin (Context.Keeps fun _ _ => False) := by
  have form := form_classify line
  generalize StyleLine.classify line = kind at form inside ⊢
  cases form with
  | skipped => trivial
  | unknown => trivial
  | nested => exact fun context keeps => keeps.enter fun _ _ held => absurd held id
  | declaration parts =>
    intro context keeps
    obtain ⟨_, _, _, _, named, _⟩ := declarationParts?_eq_some parts
    refine ⟨fun raw => ?_, .inl named⟩
    cases context with
    | block _ _ _ _ => exact absurd raw keeps
    | raw _ _ => exact absurd keeps id
  | _ => exact absurd inside id

theorem shows_groups (positive : 0 < n) (asRead : graph.AsRead) :
    (((graph.bindings.map fun found => found.name ++ ':' :: ' ' :: found.value) ++
      graph.scopes.flatMap (graph.groupLines n)).foldl Reading.next .start).graph.Shows
        graph.Origin := by
  have start : Reading.start.Shows graph.Origin (Context.Keeps fun _ _ => False) :=
    ⟨by simp [Graph.Shows, Reading.start, Graph.empty], by simp [Reading.start]⟩
  refine (shows_foldl ?_ start).graph
  intro line member
  rcases List.mem_append.mp member with bindings | groups
  · obtain ⟨found, present, rfl⟩ := List.mem_map.mp bindings
    have kind := classify_variable (asRead.bindings found present)
    rw [Variable.line] at kind
    rw [kind]
    trivial
  · obtain ⟨scope, _, inGroup⟩ := List.mem_flatMap.mp groups
    rcases groupLines_cases positive inGroup with ⟨rule, present, grouped, rfl⟩ | inside
    · have readable := asRead.readable rule present
      rw [Address.Readable, if_neg (isRaw_eq_false_iff.mp grouped)] at readable
      have kind : StyleLine.classify rule.scope.selector =
          .block rule.scope.blockType rule.scope.label := classify_scope readable.1 readable.2
      rw [kind]
      have below : (Context.ofSelector rule.scope.blockType rule.scope.label).Keeps
          fun _ _ => False := keeps_ofSelector kind
      exact below
    · exact adds_inside inside

theorem shows_toLines (positive : 0 < n) (asRead : graph.AsRead)
    (margins : ∀ rule ∈ graph.rules, rule.isRaw = true →
      StyleLine.classify rule.address.target = StyleLine.atMargin rule.address.target) :
    (Graph.ofLines (graph.toLines n)).Shows graph.Origin := by
  have chunks : ∀ rules : List Rule, (∀ rule ∈ rules, rule ∈ graph.rules ∧ rule.isRaw = true) →
      ∀ reading : Reading, reading.graph.Shows graph.Origin →
        ((rules.flatMap fun rule => rule.address.target :: propertyLines (spaces n) rule).foldl
          Reading.next reading).graph.Shows graph.Origin := by
    intro rules
    induction rules with
    | nil => exact fun _ _ shows => shows
    | cons rule rest ih =>
      intro raws reading shows
      obtain ⟨member, kept⟩ := raws rule (by simp)
      rw [List.flatMap_cons, List.foldl_append]
      exact ih (fun other inside => raws other (by simp [inside])) _
        (shows_chunk positive asRead member kept (margins rule member kept) shows)
  rw [Graph.ofLines, Graph.toLines, List.foldl_append]
  refine chunks graph.rawRules (fun rule member => ?_) _ (shows_groups positive asRead)
  obtain ⟨present, kept, _⟩ := mem_rawRules member
  exact ⟨present, kept⟩

theorem Graph.ReadsBack.margin (back : graph.ReadsBack n) {rule : Rule}
    (member : rule ∈ graph.rules) (kept : rule.isRaw = true) :
    StyleLine.classify rule.address.target = StyleLine.atMargin rule.address.target := by
  have raw : rule.address.blockType = rawType := isRaw_iff.mp kept
  have shown := back.shown rule member kept
  refine (classify_filled (fun empty => ?_) (back.starts rule member kept)
    (back.asRead.rawEnds rule member raw)).resolve_left shown
  rw [empty] at shown
  exact shown rfl

theorem Graph.ReadsBack.origin (back : graph.ReadsBack n) : graph.Shows graph.Origin :=
  back.shows (shows_toLines back.positive back.asRead fun _ => back.margin)

theorem Graph.ReadsBack.kept (back : graph.ReadsBack n) {rule : Rule}
    (member : rule ∈ graph.rules) (isRaw : rule.isRaw = true) : graph.Kept rule.address.target := by
  obtain ⟨entry, inside⟩ := List.exists_mem_of_ne_nil _ (back.asRead.distinct.filled rule member)
  exact (back.origin rule member entry inside).kept (isRaw_iff.mp isRaw)

def EndsInBrace (t : Text) : Prop := '{' ∈ t ∧ (t.getLast? = some '{' ∨ t.getLast? = some '}')

-- Both the length and the opening braces count, since a property that is nested under a selector is
-- written with as many characters as in a one-line rule.
def braceWeight (t : Text) : Nat := t.length + t.count '{'

theorem Graph.ReadsBack.content (back : graph.ReadsBack n) {rule : Rule}
    (member : rule ∈ graph.rules) (kept : rule.isRaw = true) :
    trim (dropReturn rule.address.target) = rule.address.target := by
  have ends := back.asRead.rawEnds rule member (isRaw_iff.mp kept)
  rw [dropReturn_eq_self ends, trim_eq_self (back.starts rule member kept) ends]

theorem braceWeight_compact {before body base : Text} {entry : Text × Text}
    (inside : entry ∈ compactDeclarations (trim body)) (within : base <+: trim before)
    (noBrace : '{' ∉ before) :
    braceWeight (base ++ ' ' :: (entry.1 ++ ':' :: ' ' :: entry.2)) <
      braceWeight (before ++ '{' :: (body ++ ['}'])) := by
  have declared := (compactDeclarations_sublist inside).trans (trim_sublist body)
  have length := declared.length_le
  have braces := declared.count_le '{'
  have front : base.length ≤ before.length := within.length_le.trans (trim_length_le before)
  have plain : base.count '{' = 0 :=
    List.count_eq_zero.mpr fun brace => noBrace (mem_of_mem_trim (within.subset brace))
  simp only [List.length_append, List.length_cons, List.count_append] at length braces
  simp only [braceWeight, List.length_append, List.length_cons, List.length_nil, List.count_append,
    List.count_cons, List.count_nil, plain]
  simp only [List.count_cons] at braces
  grind

theorem EndsInBrace.of_compact {content selector declarations : Text} (ends : EndsFilled content)
    (parts : StyleLine.compactParts? content = some (selector, declarations)) :
    EndsInBrace content := by
  obtain ⟨before, body, rfl, _, _, _⟩ := compactParts?_eq_some ends parts
  refine ⟨by simp, .inr ?_⟩
  rw [← List.cons_append, ← List.append_assoc, List.getLast?_concat]

-- Each way to keep a selector that ends in a brace takes a heavier one.
theorem Graph.ReadsBack.heavier (back : graph.ReadsBack n) {target : Text}
    (kept : graph.Kept target) (braced : EndsInBrace target) :
    ∃ next ∈ graph.rules, (next.isRaw = true ∧ EndsInBrace next.address.target) ∧
      braceWeight target < braceWeight next.address.target := by
  cases kept with
  | @line next _ present isRaw kind =>
    have form := form_classify next.address.target
    rw [kind, back.content present isRaw] at form
    cases form with
    | raw noBraces _ =>
      have ends := back.asRead.rawEnds next present (isRaw_iff.mp isRaw)
      have within := prefix_rawSelector next.address.target
      by_cases brace : next.address.target.getLast? = some '{'
      · have shorter := rawSelector_lt brace
        have braces := within.sublist.count_le '{'
        refine ⟨next, present, ⟨isRaw, within.subset braced.1, .inl brace⟩, ?_⟩
        rw [braceWeight, braceWeight]
        omega
      · rw [rawSelector_eq_self ends brace] at braced
        obtain ⟨_, _, compact⟩ := exists_compactParts? braced.1 (braced.2.resolve_left brace)
        rw [noBraces] at compact
        cases compact
  | @compact next _ _ present isRaw kind =>
    -- The selector of a one-line rule stands before the first brace.
    obtain ⟨before, _, _, noBrace, rfl, _⟩ :=
      compactParts?_eq_some (endsFilled_trim _) (compact_of_classify kind)
    exact absurd (mem_of_mem_trim braced.1) noBrace
  | @nested rule base entry present isRaw kind inside odd =>
    have raw : rule.address.blockType = rawType := isRaw_iff.mp isRaw
    obtain ⟨next, member, nextRaw, selector, declarations, compact, here, declared⟩ :=
      (back.origin rule present entry inside).named.resolve_left odd
    have parts := compact_of_classify compact
    rw [back.content member nextRaw] at parts
    have ends := back.asRead.rawEnds next member (isRaw_iff.mp nextRaw)
    have whole := EndsInBrace.of_compact ends parts
    obtain ⟨before, body, content, noBrace, rfl, rfl⟩ := compactParts?_eq_some ends parts
    refine ⟨next, member, ⟨nextRaw, whole⟩, ?_⟩
    have selected : rule.address.target = trim before := by
      rw [here] at raw ⊢
      exact target_of_compact raw
    have cut := raw_of_classify kind
    rw [back.content present isRaw, selected] at cut
    rw [content]
    exact braceWeight_compact declared (cut ▸ prefix_rawSelector _) noBrace

theorem Graph.ReadsBack.noBrace (back : graph.ReadsBack n) :
    ∀ rule ∈ graph.rules, rule.isRaw = true → ¬EndsInBrace rule.address.target := by
  have none : ∀ rule ∈ graph.rules, ¬(rule.isRaw = true ∧ EndsInBrace rule.address.target) := by
    refine not_of_greater (fun rule => braceWeight rule.address.target) ?_
    rintro rule member ⟨isRaw, braced⟩
    exact back.heavier (back.kept member isRaw) braced
  exact fun rule member isRaw braced => none rule member ⟨isRaw, braced⟩

theorem Graph.ReadsBack.notOnOneLine (back : graph.ReadsBack n) {rule : Rule}
    (member : rule ∈ graph.rules) (isRaw : rule.isRaw = true) {selector declarations : Text} :
    StyleLine.classify rule.address.target ≠ .compact selector declarations := by
  intro kind
  have parts := compact_of_classify kind
  rw [back.content member isRaw] at parts
  have ends := back.asRead.rawEnds rule member (isRaw_iff.mp isRaw)
  exact back.noBrace rule member isRaw (.of_compact ends parts)

theorem Graph.ReadsBack.named (back : graph.ReadsBack n) :
    ∀ rule ∈ graph.rules, ∀ entry ∈ rule.properties.entries, IsPropertyName entry.1 := by
  intro rule member entry inside
  rcases (back.origin rule member entry inside).named with named | oneLine
  · exact named
  · obtain ⟨next, present, isRaw, _, _, kind, _⟩ := oneLine
    exact absurd kind (back.notOnOneLine present isRaw)

theorem Graph.ReadsBack.selector (back : graph.ReadsBack n) {rule : Rule}
    (member : rule ∈ graph.rules) (isRaw : rule.isRaw = true) :
    IsRawSelector rule.address.target := by
  refine ⟨(back.asRead.plain.addresses rule member).target, ?_⟩
  have kept := back.kept member isRaw
  generalize rule.address.target = target at kept
  cases kept with
  | @line next _ present nextRaw kind =>
    have ends := back.asRead.rawEnds next present (isRaw_iff.mp nextRaw)
    have cut := raw_of_classify kind
    rw [back.content present nextRaw] at cut
    have whole : StyleLine.rawSelector next.address.target = next.address.target :=
      rawSelector_eq_self ends fun brace =>
        back.noBrace next present nextRaw ⟨List.mem_of_getLast? brace, .inl brace⟩
    rw [whole] at cut
    rw [cut] at kind ⊢
    exact kind
  | compact present nextRaw kind => exact absurd kind (back.notOnOneLine present nextRaw)
  | nested present _ _ inside odd => exact absurd (back.named _ present _ inside) odd

theorem Graph.ReadsBack.noCompact (back : graph.ReadsBack n) :
    ∀ line ∈ graph.toLines n, ∀ selector declarations,
      StyleLine.classify line ≠ .compact selector declarations := by
  intro line inLines selector declarations kind
  obtain ⟨rule, present, isRaw, rfl⟩ := selector_of_written back.positive back.asRead
    (writtenLine_of_toLines inLines) (.inr ⟨selector, declarations, kind⟩)
  exact back.notOnOneLine present isRaw kind

theorem Graph.ReadsBack.ends (back : graph.ReadsBack n) :
    ∀ rule ∈ graph.rules, EndsFilled rule.address.target :=
  back.addresses (A := fun address => EndsFilled address.target) (endsFilled_ofLines back.noCompact)

theorem Graph.ReadsBack.placed (back : graph.ReadsBack n) :
    ∀ rule ∈ graph.rules, rule.address.Placed := by
  intro rule member
  have readable := back.asRead.readable rule member
  rw [Address.Readable] at readable
  rw [Address.Placed]
  split
  · rename_i raw
    exact back.selector member (isRaw_iff.mpr raw)
  · rename_i block
    rw [if_neg block] at readable
    exact ⟨readable.1, readable.2, back.ends rule member⟩

theorem value_of_declaration {name value property text : Text} {width : Nat}
    (read : ReadProperty name value)
    (kind : StyleLine.classify (spaces width ++ name ++ ':' :: ' ' :: value) =
      .declaration property text) : text = trim (StyleLine.dropSemicolon value) := by
  obtain ⟨c, rest, rfl⟩ := List.exists_cons_of_ne_nil read.present
  have starts : StartsFilled (c :: rest ++ ':' :: ' ' :: value) :=
    startsFilled_cons.mpr (startsFilled_cons.mp (trim_eq_self_iff.mp read.trimmed).1)
  have ends : EndsFilled (c :: rest ++ ':' :: ' ' :: value) := pair_ends read.valued
  have form := form_classify (spaces width ++ (c :: rest) ++ ':' :: ' ' :: value)
  rw [kind, List.append_assoc, dropReturn_eq_self (ends.append (by simp)),
    trim_append_blanks isBlank_of_mem_spaces, trim_eq_self starts ends] at form
  cases form with
  | declaration parts =>
    obtain ⟨blanks, after, split, blank, named, rfl, _⟩ := declarationParts?_eq_some parts
    have noColon : ':' ∉ property ++ blanks := by
      rw [List.mem_append, not_or]
      exact ⟨named.trimmed.2.2, fun inside => by cases blank ':' inside⟩
    have written : splitAtFirst? ':' (c :: rest ++ ':' :: ' ' :: value) =
        some (c :: rest, ' ' :: value) := splitAtFirst?_eq_some_iff.mpr ⟨rfl, read.noColon⟩
    rw [split, ← List.append_assoc, splitAtFirst?_eq_some_iff.mpr ⟨rfl, noColon⟩] at written
    obtain ⟨_, rfl⟩ := Prod.mk.inj (Option.some.inj written)
    have started : trimStart (' ' :: value) = value := trimStart_eq_self read.valued.starts
    rw [started]

def Graph.entries (graph : Graph) : List (Text × Text) :=
  graph.rules.flatMap fun rule => rule.properties.entries

theorem Graph.ReadsBack.entry_of_declaration (back : graph.ReadsBack n)
    (written : WrittenLine n graph line) {property text : Text}
    (kind : StyleLine.classify line = .declaration property text) :
    ∃ entry ∈ graph.entries, text = trim (StyleLine.dropSemicolon entry.2) := by
  cases written with
  | binding inGraph =>
    rw [classify_variable (back.asRead.bindings _ inGraph)] at kind
    cases kind
  | scope inGraph grouped =>
    obtain ⟨valid, labels, _⟩ :=
      (back.placed _ inGraph).block (isRaw_eq_false_iff.mp grouped)
    rw [classify_scope valid labels] at kind
    cases kind
  | target inGraph _ apart =>
    rw [Rule.target, classify_nested back.positive (back.ends _ inGraph) apart] at kind
    cases kind
  | raw inGraph isRaw =>
    rw [(back.selector inGraph isRaw).2] at kind
    cases kind
  | @property rule entry _ inGraph found step =>
    exact ⟨entry, List.mem_flatMap.mpr ⟨rule, inGraph, found⟩,
      value_of_declaration (back.asRead.properties rule inGraph entry found) kind⟩

theorem Graph.ReadsBack.values (back : graph.ReadsBack n) :
    ∀ entry ∈ graph.entries, ∃ written ∈ graph.entries,
      entry.2 = trim (StyleLine.dropSemicolon written.2) := by
  intro entry inEntries
  obtain ⟨rule, member, inside⟩ := List.mem_flatMap.mp inEntries
  refine back.shows (P := fun _ _ value => ∃ written ∈ graph.entries,
    value = trim (StyleLine.dropSemicolon written.2)) ?_ rule member entry inside
  refine (each_ofLines (V := fun _ _ => True) (A := fun _ => True)
    (E := fun _ value => ∃ written ∈ graph.entries,
      value = trim (StyleLine.dropSemicolon written.2))
    (C := fun _ => True) (fun _ => id) ?_).properties
  intro line inLines
  cases kind : StyleLine.classify line with
  | declaration property text => exact back.entry_of_declaration (writtenLine_of_toLines inLines) kind
  | compact selector declarations =>
    exact absurd kind (back.noCompact line inLines selector declarations)
  | nested indent selector => exact fun _ _ => trivial
  | _ => trivial

theorem Graph.ReadsBack.noSemicolon (back : graph.ReadsBack n) :
    ∀ entry ∈ graph.entries, ¬entry.2.getLast? = some ';' := by
  refine not_of_greater (fun entry => entry.2.length) ?_
  intro entry member semicolon
  obtain ⟨written, inside, same⟩ := back.values entry member
  have last : written.2.getLast? = some ';' := by
    by_contra other
    obtain ⟨rule, present, found⟩ := List.mem_flatMap.mp inside
    have valued := (back.asRead.properties rule present written found).valued
    rw [StyleLine.dropSemicolon, if_neg other, valued.2.1] at same
    exact other (same ▸ semicolon)
  refine ⟨written, inside, last, ?_⟩
  obtain ⟨front, split⟩ := List.getLast?_eq_some_iff.mp last
  have shorter := trim_length_le front
  rw [same, StyleLine.dropSemicolon, if_pos last, split, List.dropLast_concat, List.length_append,
    List.length_singleton]
  omega

theorem Graph.ReadsBack.property (back : graph.ReadsBack n) {rule : Rule}
    (member : rule ∈ graph.rules) {entry : Text × Text} (inside : entry ∈ rule.properties.entries) :
    CanonicalProperty entry.1 entry.2 :=
  ⟨back.named rule member entry inside,
    (back.asRead.properties rule member entry inside).valued,
    back.noSemicolon entry (List.mem_flatMap.mpr ⟨rule, member, inside⟩)⟩

theorem Graph.ReadsBack.noGap (back : graph.ReadsBack n) :
    ∀ rule ∈ graph.rules, rule.address.blockType = rawType ∨ NoGap rule.address.target :=
  back.addresses (A := fun address => address.blockType = rawType ∨ NoGap address.target)
    fun _ => noGap_of_read back.positive back.asRead.bindings back.placed
      fun _ member _ inside => back.property member inside

theorem Graph.ReadsBack.canonical (back : graph.ReadsBack n) : graph.Canonical := by
  refine canonical_iff.mpr ⟨back.asRead.distinct, back.asRead.bindings, fun rule member => ?_,
    fun rule member entry inside => back.property member inside⟩
  have readable := back.asRead.readable rule member
  rw [Address.Readable] at readable
  rw [Address.Canonical]
  split
  · rename_i raw
    rw [if_pos raw] at readable
    exact ⟨readable, (back.placed rule member).raw raw⟩
  · rename_i block
    obtain ⟨valid, labels, ends⟩ := (back.placed rule member).block block
    exact ⟨valid, labels, (back.asRead.plain.addresses rule member).target, trimEnd_eq_self ends,
      (back.noGap rule member).resolve_left block⟩

-- The bodies that lose nothing when they are written again are those with a canonical graph. The
-- reader skips closing braces and comments, and the properties below such a selector may by chance
-- come back from another rule.
theorem canonical_iff_rewritten (positive : 0 < n) (body : Text) :
    (Graph.ofBody body).Canonical ↔
      (Graph.ofBody ((Graph.ofBody body).toBody n)).sameRules (Graph.ofBody body) = true ∧
        ∀ rule ∈ (Graph.ofBody body).rules, rule.isRaw = true →
          StyleLine.classify rule.address.target ≠ .skipped := by
  have asRead := asRead_ofBody body
  rw [ofBody_toBody_of_oneLine asRead.plain,
    sameRules_iff_alike (distinct_ofLines _) asRead.distinct]
  constructor
  · intro canonical
    refine ⟨alike_ofLines_toLines positive canonical, fun rule member isRaw => ?_⟩
    have placed := (canonical.rules rule member).address.placed
    rw [(placed.raw (isRaw_iff.mp isRaw)).2]
    exact StyleLine.noConfusion
  · rintro ⟨alike, shown⟩
    exact Graph.ReadsBack.canonical ⟨positive, asRead, alike, shown⟩

def mixedBody : Text :=
  ("accent: red\ncore/card \x7b color: red; margin: 0 \x7d\n" ++
    "core/card:promo\n  .title\n    gap: 2px\n@media print\n  color: black").toList

theorem canonical_iff_rewritten_mixedBody :
    0 < 2 ∧ (Graph.ofBody mixedBody).Canonical ∧
      (Graph.ofBody ((Graph.ofBody mixedBody).toBody 2)).sameRules (Graph.ofBody mixedBody) = true ∧
        ∀ rule ∈ (Graph.ofBody mixedBody).rules, rule.isRaw = true →
          StyleLine.classify rule.address.target ≠ .skipped := by
  have canonical : (Graph.ofBody mixedBody).Canonical := by decide +kernel
  exact ⟨by decide, canonical, (canonical_iff_rewritten (by decide) mixedBody).mp canonical⟩

def bracedBody : Text := "core/card \x7b\n  color: red\n\x7d".toList

theorem bracedBody_not_rewritten :
    0 < 2 ∧ (Graph.ofBody ((Graph.ofBody bracedBody).toBody 2)).sameRules
      (Graph.ofBody bracedBody) = false := by
  decide +kernel

-- A brace as a selector, whose property is read from a one-line rule when it is written.
def chanceBody : Text :=
  ("\x7d \x7b.w: \x7d; p: q;\n  a: b\n\x7d \x7b.w: \x7d; p: q \x7d\n" ++
    "\x7d \x7b.w: \x7d; p: q;\n  .w: \x7d\n  p: q").toList

example : (Graph.ofBody ((Graph.ofBody chanceBody).toBody 2)).sameRules (Graph.ofBody chanceBody) =
    true ∧ ¬(Graph.ofBody chanceBody).Canonical := by
  decide +kernel

end BlockMarkup.Style
