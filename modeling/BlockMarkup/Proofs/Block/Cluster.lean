import BlockMarkup.Block.Patch
import BlockMarkup.Proofs.Lines

namespace BlockMarkup

section key

variable {key value rest : Text} {c : Char}

def IsKey (key : Text) : Prop :=
  ∃ c rest, (key = c :: rest ∨ key = '@' :: c :: rest) ∧ Line.isKeyStart c = true ∧
    ∀ d ∈ rest, Line.isKeyChar d = true

theorem isKeyChar_ofNat_blankCodes : ∀ n ∈ blankCodes, Line.isKeyChar (Char.ofNat n) = false := by
  decide

theorem isKeyStart_ofNat_blankCodes : ∀ n ∈ blankCodes, Line.isKeyStart (Char.ofNat n) = false := by
  decide

theorem IsKey.solid (isKey : IsKey key) : key ≠ [] ∧ ∀ c ∈ key, isBlank c = false := by
  obtain ⟨c, rest, forms, start, chars⟩ := isKey
  have named : ∀ d ∈ c :: rest, isBlank d = false := by
    intro d member
    rcases List.mem_cons.mp member with rfl | later
    · exact isBlank_of_class isKeyStart_ofNat_blankCodes start
    · exact isBlank_of_class isKeyChar_ofNat_blankCodes (chars d later)
  rcases forms with rfl | rfl
  · exact ⟨List.cons_ne_nil _ _, named⟩
  · refine ⟨List.cons_ne_nil _ _, fun d member => ?_⟩
    rcases List.mem_cons.mp member with rfl | later
    · rfl
    · exact named d later

theorem IsKey.head?_ne_dash (isKey : IsKey key) : key.head? ≠ some '-' := by
  obtain ⟨c, rest, rfl | rfl, start, _⟩ := isKey
  · intro dash
    cases dash
    cases start
  · intro dash
    cases dash

theorem splitKey?_eq_some_iff : Line.splitKey? t = some (key, rest) ↔
    t = key ++ ':' :: rest ∧ (∀ c ∈ key, Line.isKeyChar c = true) ∧
      ∀ c ∈ rest.head?, isBlank c = true := by
  constructor
  · intro found
    fun_induction Line.splitKey? t generalizing key with
    | case1 => cases found
    | case2 =>
      cases found
      simp
    | case3 => cases found
    | case4 c d more separates =>
      cases found
      simpa using separates
    | case5 c d more _ char ih =>
      obtain ⟨⟨front, back⟩, later, same⟩ := Option.map_eq_some_iff.mp found
      cases same
      obtain ⟨whole, chars, ends⟩ := ih later
      exact ⟨by rw [whole, List.cons_append], List.forall_mem_cons.mpr ⟨char, chars⟩, ends⟩
    | case6 => cases found
  · rintro ⟨rfl, chars, ends⟩
    induction key with
    | nil =>
      cases rest with
      | nil => rfl
      | cons d more => simp [Line.splitKey?, ends d rfl]
    | cons c key ih =>
      obtain ⟨char, later⟩ := List.forall_mem_cons.mp chars
      obtain ⟨d, more, next, solid⟩ :
          ∃ d more, key ++ ':' :: rest = d :: more ∧ isBlank d = false := by
        cases key with
        | nil => exact ⟨':', rest, rfl, rfl⟩
        | cons d key =>
          exact ⟨d, _, rfl, isBlank_of_class isKeyChar_ofNat_blankCodes (later d (by simp))⟩
      have read := ih later
      rw [next] at read
      simp [next, Line.splitKey?, solid, char, read]

theorem takeKey?_cons (other : c ≠ '@') (rest : Text) : Line.takeKey? (c :: rest) =
    if Line.isKeyStart c then (Line.splitKey? rest).map fun (key, value) => (c :: key, value)
    else none := by
  unfold Line.takeKey?
  split
  · rename_i same
    exact absurd (List.cons.inj same).1 other
  · rename_i same
    cases same
    rfl
  · rename_i empty
    cases empty

theorem takeKey?_eq_some_iff : Line.takeKey? t = some (key, rest) ↔
    t = key ++ ':' :: rest ∧ IsKey key ∧ ∀ c ∈ rest.head?, isBlank c = true := by
  constructor
  · intro taken
    unfold Line.takeKey? at taken
    split at taken
    · rename_i c more
      split at taken
      · rename_i start
        obtain ⟨⟨front, back⟩, later, same⟩ := Option.map_eq_some_iff.mp taken
        cases same
        obtain ⟨whole, chars, ends⟩ := splitKey?_eq_some_iff.mp later
        exact ⟨by simp [whole], ⟨c, front, .inr rfl, start, chars⟩, ends⟩
      · cases taken
    · rename_i c more _
      split at taken
      · rename_i start
        obtain ⟨⟨front, back⟩, later, same⟩ := Option.map_eq_some_iff.mp taken
        cases same
        obtain ⟨whole, chars, ends⟩ := splitKey?_eq_some_iff.mp later
        exact ⟨by simp [whole], ⟨c, front, .inl rfl, start, chars⟩, ends⟩
      · cases taken
    · cases taken
  · rintro ⟨rfl, ⟨c, name, forms, start, chars⟩, ends⟩
    have split : Line.splitKey? (name ++ ':' :: rest) = some (name, rest) :=
      splitKey?_eq_some_iff.mpr ⟨rfl, chars, ends⟩
    rcases forms with rfl | rfl
    · have other : c ≠ '@' := by
        rintro rfl
        cases start
      rw [List.cons_append, takeKey?_cons other, if_pos start, split]
      rfl
    · rw [List.cons_append, List.cons_append, Line.takeKey?, if_pos start, split]
      rfl

-- What a property line is made of: an indent, a key, a colon with a blank or the end behind it, and
-- the rest of the line, in which the value stands between blanks.
structure Keyed (t indent key rest : Text) : Prop where
  written : t = indent ++ (key ++ ':' :: rest)
  indented : ∀ c ∈ indent, isBlank c = true
  isKey : IsKey key
  separates : ∀ c ∈ rest.head?, isBlank c = true

theorem property?_eq_some_iff {indent : Text} :
    Line.property? t = some (.property indent key value) ↔
      ∃ rest, Keyed t indent key rest ∧ trim rest = value ∧ '\n' ∉ value := by
  constructor
  · intro read
    unfold Line.property? at read
    split at read
    · cases read
    · rename_i taken
      dsimp only at read
      split at read
      · cases read
      · rename_i plain
        cases read
        obtain ⟨whole, isKey, ends⟩ := takeKey?_eq_some_iff.mp taken
        refine ⟨_, ⟨?_, fun c member => List.mem_takeWhile_imp member, isKey, ends⟩, rfl, plain⟩
        rw [← whole, List.takeWhile_append_dropWhile]
  · rintro ⟨rest, ⟨rfl, blank, isKey, ends⟩, rfl, plain⟩
    have stop : ∀ c ∈ (key ++ ':' :: rest).head?, isBlank c = false := by
      obtain ⟨present, solid⟩ := isKey.solid
      obtain ⟨c, name, rfl⟩ := List.exists_cons_of_ne_nil present
      simp [solid c (by simp)]
    obtain ⟨taken, left⟩ := takeWhile_append_stop blank stop
    rw [Line.property?, left, takeKey?_eq_some_iff.mpr ⟨rfl, isKey, ends⟩]
    simp [taken, plain]

theorem classify_of_property? {line indent : Text}
    (read : Line.property? (dropReturn line) = some (.property indent key value)) :
    Line.classify line = .property indent key value := by
  obtain ⟨rest, ⟨whole, blank, isKey, _⟩, _⟩ := property?_eq_some_iff.mp read
  obtain ⟨present, solid⟩ := isKey.solid
  obtain ⟨c, name, rfl⟩ := List.exists_cons_of_ne_nil present
  have filled : (dropReturn line).all isBlank = false := by
    rw [whole]
    simp [solid c (by simp)]
  have noHeader : Line.header? (dropReturn line) = none := by
    refine header?_eq_none ?_
    rw [whole]
    cases indent with
    | nil => simpa using isKey.head?_ne_dash
    | cons d indent =>
      intro dash
      have inside := blank d (by simp)
      cases dash
      cases inside
  simp [Line.classify, filled, noHeader, read]

theorem property?_of_classify {line indent : Text}
    (kind : Line.classify line = .property indent key value) :
    Line.property? (dropReturn line) = some (.property indent key value) := by
  rcases classify_cases line with ⟨_, blank⟩ | header | property | content
  · rw [kind] at blank
    cases blank
  · rw [kind] at header
    cases header?_eq_some header
  · rw [property, kind]
  · rw [kind] at content
    cases content

theorem indent_of_classify {line indent old : Text}
    (read : Line.classify line = .property indent key old) :
    (∀ c ∈ indent, isBlank c = true) ∧ indent ⊆ line := by
  obtain ⟨rest, ⟨whole, blank, _, _⟩, _⟩ := property?_eq_some_iff.mp (property?_of_classify read)
  refine ⟨blank, fun c member => ?_⟩
  rw [← dropReturn_append_finalReturn line, whole]
  simp [member]

theorem classify_propertyText {indent : Text} (blanks : ∀ c ∈ indent, isBlank c = true)
    (isKey : IsKey key) (trimmed : trim value = value) (plain : '\n' ∉ value) :
    Line.classify (indent ++ propertyText key value) = .property indent key value := by
  have shape : indent ++ propertyText key value = (indent ++ (key ++ [':'])) ++ ' ' :: value := by
    simp [propertyText]
  have noReturn : dropReturn (indent ++ propertyText key value) = indent ++ propertyText key value := by
    rw [shape, (returns_append_cons (by decide) _ value).1,
      dropReturn_eq_self (trim_eq_self_iff.mp trimmed).2]
  have space : trim (' ' :: value) = value := by
    rw [← List.singleton_append, trim_append_blanks (by simp [isBlank]), trimmed]
  refine classify_of_property? (property?_eq_some_iff.mpr ⟨' ' :: value, ?_⟩)
  rw [noReturn]
  exact ⟨⟨by simp [propertyText], blanks, isKey, by simp [isBlank]⟩, space, plain⟩

theorem map_fst_extended (extend : Text → Text) {first second : Option (Text × Text)}
    (same : first.map Prod.fst = second.map Prod.fst) :
    (first.map fun (key, value) => (extend key, value)).map Prod.fst =
      (second.map fun (key, value) => (extend key, value)).map Prod.fst := by
  have later := congrArg (Option.map extend) same
  rwa [Option.map_map, Option.map_map] at later ⊢

-- A key ends where a blank follows a colon, so what follows the line's last word does not count.
theorem splitKey?_append_blank (behind : ∀ c ∈ back.head?, isBlank c = true) (front : Text) :
    (Line.splitKey? (front ++ back)).map Prod.fst = (Line.splitKey? front).map Prod.fst := by
  induction front with
  | nil =>
    cases back with
    | nil => rfl
    | cons c rest =>
      have blank : isBlank c = true := behind c rfl
      have noColon : c ≠ ':' := by
        rintro rfl
        cases blank
      have noKey : Line.isKeyChar c = false := outside_of_isBlank isKeyChar_ofNat_blankCodes blank
      cases rest with
      | nil => simp [Line.splitKey?, noColon]
      | cons d rest => simp [Line.splitKey?, noColon, noKey]
  | cons c front ih =>
    cases front with
    | nil =>
      cases back with
      | nil => rfl
      | cons d rest =>
        have blank : isBlank d = true := behind d rfl
        have later : Line.splitKey? (d :: rest) = none := by simpa [Line.splitKey?] using ih
        by_cases colon : c = ':'
        · simp [Line.splitKey?, colon, blank]
        · simp [Line.splitKey?, colon, later]
    | cons d front =>
      rw [List.cons_append, List.cons_append, Line.splitKey?, Line.splitKey?, ← List.cons_append]
      split
      · rfl
      · split
        · exact map_fst_extended (c :: ·) ih
        · rfl

theorem takeKey?_append_blank (behind : ∀ c ∈ back.head?, isBlank c = true) (front : Text) :
    (Line.takeKey? (front ++ back)).map Prod.fst = (Line.takeKey? front).map Prod.fst := by
  have noStart : ∀ d ∈ back.head?, Line.isKeyStart d = false := fun d first =>
    outside_of_isBlank isKeyStart_ofNat_blankCodes (behind d first)
  cases front with
  | nil =>
    cases back with
    | nil => rfl
    | cons d rest =>
      have other : d ≠ '@' := by
        rintro rfl
        cases behind '@' rfl
      rw [List.nil_append, takeKey?_cons other, noStart d rfl]
      rfl
  | cons c front =>
    by_cases mark : c = '@'
    · subst mark
      cases front with
      | nil =>
        cases back with
        | nil => rfl
        | cons d rest =>
          rw [List.singleton_append, Line.takeKey?, noStart d rfl]
          rfl
      | cons d front =>
        rw [List.cons_append, List.cons_append, Line.takeKey?, Line.takeKey?]
        split
        · exact map_fst_extended (fun key => '@' :: d :: key) (splitKey?_append_blank behind front)
        · rfl
    · rw [List.cons_append, takeKey?_cons mark, takeKey?_cons mark]
      split
      · exact map_fst_extended (c :: ·) (splitKey?_append_blank behind front)
      · rfl

theorem suffix_of_takeKey? (taken : Line.takeKey? t = some (key, value)) : value <:+ t := by
  obtain ⟨rfl, _⟩ := takeKey?_eq_some_iff.mp taken
  exact (List.suffix_cons ':' value).trans (List.suffix_append key _)

theorem key_append_blank (filled : t.all isBlank = false)
    (behind : ∀ c ∈ back.head?, isBlank c = true) :
    (t ++ back).takeWhile isBlank = t.takeWhile isBlank ∧
      (Line.takeKey? (trimStart (t ++ back))).map Prod.fst =
        (Line.takeKey? (trimStart t)).map Prod.fst := by
  obtain ⟨indent, cut, blank⟩ := exists_trimStart t
  cases words : trimStart t with
  | nil =>
    rw [words, List.append_nil] at cut
    rw [cut, List.all_eq_true.mpr blank] at filled
    cases filled
  | cons d rest =>
    have solid : isBlank d = false := startsFilled_cons.mp (words ▸ startsFilled_trimStart t)
    have stop : ∀ c ∈ (d :: rest).head?, isBlank c = false := by simp [solid]
    have stopBefore : ∀ c ∈ (d :: rest ++ back).head?, isBlank c = false := by simp [solid]
    have here := takeWhile_append_stop blank stop
    have there := takeWhile_append_stop blank stopBefore
    rw [words] at cut
    rw [cut, List.append_assoc, trimStart, here.1, there.1, there.2, takeKey?_append_blank behind]
    exact ⟨rfl, rfl⟩

theorem foldValue_trimmed (value : Text) :
    trim (foldValue value) = foldValue value ∧ '\n' ∉ foldValue value := by
  refine ⟨trim_trim _, fun member => ?_⟩
  obtain ⟨c, _, folded⟩ := List.mem_map.mp (mem_of_mem_trim member)
  split at folded
  · cases folded
  · rename_i other
    simp [folded] at other

end key

variable {number : Nat} {lines front back : List Text}

def Leading (line : Text) : Prop :=
  (Line.classify line).isProperty = true ∨ Line.classify line = .blank

theorem Leading.not_header {line blockType : Text} {label : Option Text} (leading : Leading line) :
    Line.classify line ≠ .header blockType label := by
  intro kind
  rcases leading with property | blank
  · rw [kind] at property
    cases property
  · rw [kind] at blank
    cases blank

theorem clusterFrom_append (leading : ∀ line ∈ front, Leading line) (number : Nat)
    (back : List Text) :
    clusterFrom number (front ++ back) =
      clusterFrom number front ++ clusterFrom (number + front.length) back := by
  induction front generalizing number with
  | nil => rfl
  | cons line rest ih =>
    have next : number + 1 + rest.length = number + (line :: rest).length := by
      rw [List.length_cons]
      omega
    have later := ih (fun line member => leading line (List.mem_cons_of_mem _ member)) (number + 1)
    rw [next] at later
    rw [List.cons_append, clusterFrom, clusterFrom, later]
    rcases leading line (by simp) with property | blank
    · cases kind : Line.classify line with
      | property indent key value => rfl
      | _ => simp [kind, Line.isProperty] at property
    · rw [blank]

structure FoundBelow (number : Nat) (front : List Text) (line : Text) (found : PropertyLine) :
    Prop where
  leading : ∀ line ∈ front, Leading line
  place : found.line = number + front.length
  read : Line.classify line = .property found.indent found.key found.value

theorem FoundBelow.cons {line here : Text} {found : PropertyLine} (leads : Leading line)
    (below : FoundBelow (number + 1) front here found) :
    FoundBelow number (line :: front) here found := by
  refine ⟨List.forall_mem_cons.mpr ⟨leads, below.leading⟩, ?_, below.read⟩
  rw [below.place, List.length_cons]
  omega

-- A found property line cuts the lines: it is the next one after those that lead to it.
theorem clusterFrom_cut {before after : List PropertyLine} {found : PropertyLine}
    (cut : clusterFrom number lines = before ++ found :: after) :
    ∃ front line rest, lines = front ++ line :: rest ∧ FoundBelow number front line found ∧
      clusterFrom number front = before ∧ clusterFrom (found.line + 1) rest = after := by
  induction lines generalizing number before with
  | nil => cases before <;> cases cut
  | cons line rest ih =>
    rw [clusterFrom] at cut
    split at cut
    · rename_i indent key value kind
      cases before with
      | nil =>
        cases cut
        exact ⟨[], line, rest, rfl, ⟨by simp, rfl, kind⟩, rfl, rfl⟩
      | cons first before =>
        obtain ⟨rfl, later⟩ := List.cons.inj cut
        obtain ⟨front, here, back, rfl, below, above, after⟩ := ih later
        refine ⟨line :: front, here, back, rfl, below.cons (.inl (by rw [kind]; rfl)), ?_, after⟩
        rw [clusterFrom, kind]
        dsimp only
        rw [above]
    · rename_i kind
      obtain ⟨front, here, back, rfl, below, above, after⟩ := ih cut
      refine ⟨line :: front, here, back, rfl, below.cons (.inr kind), ?_, after⟩
      rw [clusterFrom, kind]
      exact above
    · cases before <;> cases cut

def PropertyLine.moved (offset : Nat) (found : PropertyLine) : PropertyLine :=
  { found with line := found.line + offset }

theorem clusterFrom_moved (number offset : Nat) (lines : List Text) :
    clusterFrom (number + offset) lines =
      (clusterFrom number lines).map (PropertyLine.moved offset) := by
  induction lines generalizing number with
  | nil => rfl
  | cons line rest ih =>
    have next : number + offset + 1 = number + 1 + offset := by omega
    rw [clusterFrom, clusterFrom, next, ih]
    split <;> rfl

theorem mem_clusterFrom_bounds {number : Nat} {lines : List Text} {found : PropertyLine}
    (member : found ∈ clusterFrom number lines) :
    number ≤ found.line ∧ found.line < number + lines.length := by
  induction lines generalizing number with
  | nil => cases member
  | cons line rest ih =>
    rw [List.length_cons]
    rw [clusterFrom] at member
    split at member
    · rcases List.mem_cons.mp member with rfl | later
      · dsimp only
        omega
      · have bounds := ih later
        omega
    · have bounds := ih member
      omega
    · cases member

theorem clusterFrom_blanks {blanks : List Text} (blank : ∀ line ∈ blanks, isBlankLine line = true)
    (number : Nat) : clusterFrom number blanks = [] := by
  induction blanks generalizing number with
  | nil => rfl
  | cons line rest ih =>
    have kind : Line.classify line = .blank := by simpa [isBlankLine] using blank line (by simp)
    rw [clusterFrom, kind]
    exact ih (fun other member => blank other (List.mem_cons_of_mem _ member)) (number + 1)

theorem clusterFrom_append_blanks {blanks : List Text}
    (blank : ∀ line ∈ blanks, isBlankLine line = true) (number : Nat) (lines : List Text) :
    clusterFrom number (lines ++ blanks) = clusterFrom number lines := by
  induction lines generalizing number with
  | nil => exact clusterFrom_blanks blank number
  | cons line rest ih => rw [List.cons_append, clusterFrom, clusterFrom, ih]

def pairs (lines : List Text) : List (Text × Text) :=
  (clusterFrom 1 lines).map fun found => (found.key, found.value)

theorem pairs_of_clusterFrom (number : Nat) (lines : List Text) :
    (clusterFrom number lines).map (fun found => (found.key, found.value)) = pairs lines := by
  have same : ∀ offset, (clusterFrom (0 + offset) lines).map (fun found => (found.key, found.value)) =
      (clusterFrom 0 lines).map fun found => (found.key, found.value) := by
    intro offset
    rw [clusterFrom_moved, List.map_map]
    rfl
  rw [pairs, ← Nat.zero_add number, same, ← Nat.zero_add 1, same]

theorem key_notMem_pairs_iff {key : Text} (number : Nat) :
    key ∉ (pairs lines).map Prod.fst ↔ ∀ found ∈ clusterFrom number lines, found.key ≠ key := by
  simp [← pairs_of_clusterFrom number]

theorem pairs_append (leading : ∀ line ∈ front, Leading line) (back : List Text) :
    pairs (front ++ back) = pairs front ++ pairs back := by
  rw [pairs, clusterFrom_append leading, List.map_append, ← pairs, pairs_of_clusterFrom]

theorem pairs_cons_of_property {line indent key value : Text}
    (read : Line.classify line = .property indent key value) (rest : List Text) :
    pairs (line :: rest) = (key, value) :: pairs rest := by
  rw [pairs, clusterFrom, read, List.map_cons, pairs_of_clusterFrom]

-- The lines up to the last property line, and those that follow it.
theorem clusterFrom_end (number : Nat) (lines : List Text) :
    ∃ front back, lines = front ++ back ∧ (∀ line ∈ front, Leading line) ∧ pairs back = [] ∧
      ((clusterFrom (number + 1) lines).getLast?.map PropertyLine.line).getD number =
        number + front.length := by
  rcases List.eq_nil_or_concat (clusterFrom (number + 1) lines) with none | ⟨before, last, some⟩
  · refine ⟨[], lines, rfl, by simp, ?_, by rw [none]; rfl⟩
    rw [← pairs_of_clusterFrom (number + 1), none, List.map_nil]
  · rw [List.concat_eq_append] at some
    obtain ⟨front, line, rest, cut, ⟨leading, place, read⟩, _, after⟩ := clusterFrom_cut some
    refine ⟨front ++ [line], rest, by simp [cut], ?_, ?_, ?_⟩
    · intro other member
      rcases List.mem_append.mp member with above | here
      · exact leading other above
      · rw [List.mem_singleton.mp here]
        exact .inl (by rw [read]; rfl)
    · rw [← pairs_of_clusterFrom (last.line + 1), after, List.map_nil]
    · rw [some, List.getLast?_concat, Option.map_some, Option.getD_some, place, List.length_append,
        List.length_singleton]
      omega

theorem readProperties_clusterFrom (number : Nat) (lines : List Text) :
    Block.readProperties (clusterFrom number lines) = .ofList (pairs lines) := by
  rw [Block.readProperties, pairs_of_clusterFrom]

end BlockMarkup
