import BlockMarkup.Line
import Mathlib.Data.List.DropRight

namespace BlockMarkup

-- What is said of all characters of a text is tried on these and not on all characters there are.
instance decidableForallMem (p : Char → Prop) [DecidablePred p] (t : Text) : Decidable (∀ c ∈ t, p c) :=
  List.decidableBAll p t

instance decidableForallFound (p : Char → Prop) [DecidablePred p] (found : Option Char) :
    Decidable (∀ c ∈ found, p c) :=
  Option.decidableForallMem found

theorem takeWhile_append_of_stop {α : Type} {p : α → Bool} {back : List α}
    (stop : ∀ item ∈ back.head?, p item = false) (front : List α) :
    (front ++ back).takeWhile p = front.takeWhile p ∧
      (front ++ back).dropWhile p = front.dropWhile p ++ back := by
  induction front with
  | nil =>
    cases back with
    | nil => simp
    | cons item rest => simp [stop item rfl]
  | cons item rest ih =>
    obtain ⟨taken, left⟩ := ih
    cases holds : p item with
    | true => simp [holds, taken, left]
    | false => simp [holds]

theorem takeWhile_append_stop {α : Type} {p : α → Bool} {front back : List α}
    (inside : ∀ item ∈ front, p item = true) (stop : ∀ item ∈ back.head?, p item = false) :
    (front ++ back).takeWhile p = front ∧ (front ++ back).dropWhile p = back := by
  obtain ⟨taken, left⟩ := takeWhile_append_of_stop stop front
  rw [List.takeWhile_eq_self_iff.mpr inside] at taken
  rw [List.dropWhile_eq_nil_iff.mpr inside] at left
  exact ⟨taken, left⟩

theorem splitAtFirst?_eq_some_iff {mark : Char} {t before after : Text} :
    splitAtFirst? mark t = some (before, after) ↔ t = before ++ mark :: after ∧ mark ∉ before := by
  induction t generalizing before with
  | nil => simp [splitAtFirst?]
  | cons c rest ih =>
    by_cases same : c = mark
    · subst same
      constructor
      · intro found
        simp only [splitAtFirst?, ↓reduceIte, Option.some.injEq, Prod.mk.injEq] at found
        obtain ⟨rfl, rfl⟩ := found
        simp
      · rintro ⟨split, absent⟩
        cases before with
        | nil => simpa [splitAtFirst?] using split
        | cons d before =>
          simp only [List.cons_append, List.cons.injEq] at split
          exact absurd (by simp [split.1]) absent
    · simp only [splitAtFirst?, same, ↓reduceIte, Option.map_eq_some_iff, Prod.exists, Prod.mk.injEq]
      constructor
      · rintro ⟨front, back, found, rfl, rfl⟩
        obtain ⟨rfl, absent⟩ := ih.mp found
        simp [absent, Ne.symm same]
      · rintro ⟨split, absent⟩
        cases before with
        | nil => exact absurd (by simpa using congrArg List.head? split) same
        | cons d before =>
          simp only [List.cons_append, List.cons.injEq] at split
          obtain ⟨rfl, rfl⟩ := split
          exact ⟨before, after, ih.mpr ⟨rfl, fun inside => absent (by simp [inside])⟩, rfl, rfl⟩

variable {t front back : Text} {c : Char}

theorem exists_behind_mark {mark : Char} {before quoted : Text} (absent : mark ∉ before)
    (marked : mark ∈ front) (whole : front ++ back = (before ++ [mark]) ++ quoted) :
    ∃ rest, front = (before ++ [mark]) ++ rest ∧ quoted = rest ++ back := by
  rcases List.append_eq_append_iff.mp whole with ⟨rest, start, here⟩ | ⟨rest, whole, behind⟩
  · rcases List.eq_nil_or_concat rest with rfl | ⟨more, last, rfl⟩
    · exact ⟨[], by simpa using start.symm, by simpa using here.symm⟩
    · rw [List.concat_eq_append, ← List.append_assoc] at start
      obtain ⟨rfl, _⟩ := List.append_inj' start rfl
      exact absurd (List.mem_append_left more marked) absent
  · exact ⟨rest, whole, behind⟩

theorem exists_before_mark {mark : Char} {before after : Text} (absent : mark ∉ back)
    (whole : front ++ back = before ++ mark :: after) :
    ∃ rest, front = before ++ mark :: rest := by
  rw [← List.singleton_append, ← List.append_assoc] at whole
  rcases List.append_eq_append_iff.mp whole with ⟨rest, start, here⟩ | ⟨rest, start, _⟩
  · rcases List.eq_nil_or_concat rest with rfl | ⟨more, last, rfl⟩
    · exact ⟨[], by simpa using start.symm⟩
    · rw [List.concat_eq_append, ← List.append_assoc] at start
      obtain ⟨_, same⟩ := List.append_inj' start rfl
      rw [here, List.concat_eq_append, ← same] at absent
      simp at absent
  · exact ⟨rest, by simpa using start⟩

theorem getLast?_cons_or (c : Char) (rest : Text) (before : Option Char) :
    (c :: rest).getLast?.or before = rest.getLast?.or (some c) := by
  cases ends : rest.getLast? <;> simp [List.getLast?_cons, ends]

def StartsFilled (t : Text) : Prop := ∀ c ∈ t.head?, isBlank c = false

def EndsFilled (t : Text) : Prop := ∀ c ∈ t.getLast?, isBlank c = false

theorem startsFilled_nil : StartsFilled [] := by
  intro c first
  cases first

theorem startsFilled_cons : StartsFilled (c :: t) ↔ isBlank c = false := by
  simp [StartsFilled]

theorem endsFilled_concat : EndsFilled (t ++ [c]) ↔ isBlank c = false := by
  simp [EndsFilled]

theorem EndsFilled.append (filled : EndsFilled back) (present : back ≠ []) :
    EndsFilled (front ++ back) := by
  intro c last
  rw [List.getLast?_append_of_ne_nil _ present] at last
  exact filled c last

theorem EndsFilled.of_append (filled : EndsFilled (front ++ back)) : EndsFilled back := by
  intro c last
  apply filled c
  rw [List.getLast?_append, last]
  rfl

theorem nil_of_endsFilled (filled : EndsFilled (front ++ back)) (blank : ∀ c ∈ back, isBlank c = true) :
    back = [] := by
  rcases List.eq_nil_or_concat back with rfl | ⟨more, last, rfl⟩
  · rfl
  · rw [List.concat_eq_append] at filled blank
    have solid := endsFilled_concat.mp filled.of_append
    rw [blank last (by simp)] at solid
    cases solid

theorem EndsFilled.of_cons (filled : EndsFilled (c :: t)) : EndsFilled t := by
  rw [← List.singleton_append] at filled
  exact filled.of_append

theorem EndsFilled.cons (filled : EndsFilled t) (solid : isBlank c = false) :
    EndsFilled (c :: t) := by
  cases t with
  | nil => exact endsFilled_concat (t := []).mpr solid
  | cons d rest =>
    rw [← List.singleton_append]
    exact filled.append (List.cons_ne_nil d rest)

theorem trimStart_eq_self (filled : StartsFilled t) : trimStart t = t := by
  cases t with
  | nil => rfl
  | cons c rest => simp [trimStart, startsFilled_cons.mp filled]

theorem startsFilled_trimStart (t : Text) : StartsFilled (trimStart t) := by
  induction t with
  | nil => exact startsFilled_nil
  | cons c rest ih =>
    cases blank : isBlank c with
    | true => simpa [trimStart, blank] using ih
    | false => simpa [trimStart, blank] using startsFilled_cons.mpr blank

theorem exists_trimStart (t : Text) :
    ∃ blanks, t = blanks ++ trimStart t ∧ ∀ c ∈ blanks, isBlank c = true :=
  ⟨t.takeWhile isBlank, List.takeWhile_append_dropWhile.symm, fun _ => List.mem_takeWhile_imp⟩

theorem trimStart_append_blanks (blanks : ∀ c ∈ front, isBlank c = true) :
    trimStart (front ++ t) = trimStart t :=
  List.dropWhile_append_of_pos blanks

theorem suffix_trimStart (t : Text) : trimStart t <:+ t := List.dropWhile_suffix _

theorem prefix_trimEnd (t : Text) : trimEnd t <+: t := List.rdropWhile_prefix isBlank t

theorem endsFilled_trimEnd (t : Text) : EndsFilled (trimEnd t) := by
  intro c last
  obtain ⟨present, rfl⟩ := List.mem_getLast?_eq_getLast last
  have kept := List.rdropWhile_last_not isBlank t present
  simpa [trimEnd, List.rdropWhile] using kept

theorem trimEnd_eq_self (filled : EndsFilled t) : trimEnd t = t := by
  apply List.rdropWhile_eq_self_iff.mpr
  intro present
  simpa using filled _ (List.getLast?_eq_some_getLast present)

theorem trimEnd_append (filled : EndsFilled front) (back : Text) :
    trimEnd (front ++ back) = front ++ trimEnd back := by
  induction back using List.reverseRecOn with
  | nil => simpa [trimEnd] using trimEnd_eq_self filled
  | append_singleton back c ih =>
    cases blank : isBlank c with
    | true =>
      have drops : ∀ t : Text, trimEnd (t ++ [c]) = trimEnd t :=
        fun t => List.rdropWhile_concat_pos _ t c blank
      rw [← List.append_assoc, drops, drops, ih]
    | false =>
      rw [trimEnd_eq_self (endsFilled_concat.mpr blank), ← List.append_assoc,
        trimEnd_eq_self (endsFilled_concat.mpr blank)]

theorem trimEnd_eq_nil (blanks : ∀ c ∈ t, isBlank c = true) : trimEnd t = [] :=
  List.rdropWhile_eq_nil_iff.mpr blanks

theorem exists_trimEnd (t : Text) :
    ∃ blanks, t = trimEnd t ++ blanks ∧ ∀ c ∈ blanks, isBlank c = true :=
  ⟨t.rtakeWhile isBlank, List.rdropWhile_append_rtakeWhile.symm,
    fun _ => List.mem_rtakeWhile_imp⟩

theorem trimEnd_of_blanks (filled : EndsFilled front) (blanks : ∀ c ∈ back, isBlank c = true) :
    trimEnd (front ++ back) = front := by
  rw [trimEnd_append filled, trimEnd_eq_nil blanks, List.append_nil]

theorem EndsFilled.trimStart (filled : EndsFilled t) : EndsFilled (trimStart t) := by
  obtain ⟨blanks, split⟩ := suffix_trimStart t
  rw [← split] at filled
  exact filled.of_append

theorem StartsFilled.trimEnd (filled : StartsFilled t) : StartsFilled (trimEnd t) := by
  obtain ⟨blanks, split⟩ := prefix_trimEnd t
  cases kept : BlockMarkup.trimEnd t with
  | nil => exact startsFilled_nil
  | cons c rest =>
    rw [kept] at split
    rw [← split, List.cons_append] at filled
    exact startsFilled_cons.mpr (startsFilled_cons.mp filled)

theorem startsFilled_trim (t : Text) : StartsFilled (trim t) := (startsFilled_trimStart t).trimEnd

theorem endsFilled_trim (t : Text) : EndsFilled (trim t) := endsFilled_trimEnd _

theorem trim_eq_self (starts : StartsFilled t) (ends : EndsFilled t) : trim t = t := by
  rw [trim, trimStart_eq_self starts, trimEnd_eq_self ends]

-- The two ends of a trimmed text are what proofs use; that trimming keeps it is how it is said.
theorem trim_eq_self_iff : trim t = t ↔ StartsFilled t ∧ EndsFilled t := by
  constructor
  · intro same
    exact ⟨same ▸ startsFilled_trim t, same ▸ endsFilled_trim t⟩
  · rintro ⟨starts, ends⟩
    exact trim_eq_self starts ends

theorem trim_trim (t : Text) : trim (trim t) = trim t :=
  trim_eq_self (startsFilled_trim t) (endsFilled_trim t)

theorem trim_append_blanks (blanks : ∀ c ∈ front, isBlank c = true) :
    trim (front ++ t) = trim t := by
  rw [trim, trimStart_append_blanks blanks, ← trim]

theorem trim_sublist (t : Text) : (trim t).Sublist t :=
  (prefix_trimEnd _).sublist.trans (suffix_trimStart t).sublist

theorem mem_of_mem_trim (member : c ∈ trim t) : c ∈ t := (trim_sublist t).subset member

theorem mem_trimEnd_or_blank (member : c ∈ t) : c ∈ trimEnd t ∨ isBlank c = true := by
  obtain ⟨blanks, whole, blank⟩ := exists_trimEnd t
  rw [whole] at member
  exact (List.mem_append.mp member).imp_right (blank c)

theorem mem_trim_or_blank (member : c ∈ t) : c ∈ trim t ∨ isBlank c = true := by
  rw [← List.takeWhile_append_dropWhile (p := isBlank) (l := t)] at member
  rcases List.mem_append.mp member with blank | kept
  · exact .inr (List.mem_takeWhile_imp blank)
  · exact mem_trimEnd_or_blank kept

theorem blank_of_trim_eq_nil (empty : trim t = []) : ∀ c ∈ t, isBlank c = true := by
  intro c member
  rcases mem_trim_or_blank member with kept | blank
  · rw [empty] at kept
    cases kept
  · exact blank

theorem isBlank_of_mem_finalReturn (member : c ∈ finalReturn t) : isBlank c = true := by
  rw [finalReturn] at member
  split at member
  · rw [List.mem_singleton.mp member]
    rfl
  · cases member

theorem mem_dropReturn_or_blank (member : c ∈ t) : c ∈ dropReturn t ∨ isBlank c = true := by
  rw [← dropReturn_append_finalReturn t] at member
  rcases List.mem_append.mp member with inside | ends
  · exact .inl inside
  · exact .inr (isBlank_of_mem_finalReturn ends)

theorem mem_of_mem_dropReturn (member : c ∈ dropReturn t) : c ∈ t := by
  rw [← dropReturn_append_finalReturn t]
  exact List.mem_append_left _ member

theorem trim_length_le (t : Text) : (trim t).length ≤ t.length := (trim_sublist t).length_le

theorem dropReturn_eq_self (filled : EndsFilled t) : dropReturn t = t := by
  unfold dropReturn
  split
  · rename_i ends
    cases filled '\r' ends
  · rfl

theorem trimEnd_blanks_behind (blanks : ∀ c ∈ back, isBlank c = true) :
    trimEnd (t ++ back) = trimEnd t := by
  obtain ⟨ends, whole, blank⟩ := exists_trimEnd t
  have split : t ++ back = trimEnd t ++ (ends ++ back) := by rw [← List.append_assoc, ← whole]
  rw [split]
  refine trimEnd_of_blanks (endsFilled_trimEnd t) fun c member => ?_
  exact (List.mem_append.mp member).elim (blank c) (blanks c)

theorem trim_blanks_behind (blanks : ∀ c ∈ back, isBlank c = true) : trim (t ++ back) = trim t := by
  rw [trim, trimStart, List.dropWhile_append]
  split
  · rename_i empty
    rw [trim, trimStart, List.isEmpty_iff.mp empty, List.dropWhile_eq_nil_iff.mpr blanks]
  · exact trimEnd_blanks_behind blanks

theorem trimEnd_dropReturn (t : Text) : trimEnd (dropReturn t) = trimEnd t := calc
  trimEnd (dropReturn t) = trimEnd (dropReturn t ++ finalReturn t) :=
    (trimEnd_blanks_behind fun _ => isBlank_of_mem_finalReturn).symm
  _ = trimEnd t := by rw [dropReturn_append_finalReturn]

theorem trim_dropReturn (t : Text) : trim (dropReturn t) = trim t := calc
  trim (dropReturn t) = trim (dropReturn t ++ finalReturn t) :=
    (trim_blanks_behind fun _ => isBlank_of_mem_finalReturn).symm
  _ = trim t := by rw [dropReturn_append_finalReturn]

theorem dropReturn_append_return (filled : EndsFilled t) (other : Text) :
    dropReturn (t ++ finalReturn other) = t := by
  rw [finalReturn]
  split
  · simp [dropReturn]
  · rw [List.append_nil, dropReturn_eq_self filled]

theorem returns_append_cons (other : c ≠ '\r') (front back : Text) :
    dropReturn (front ++ c :: back) = front ++ c :: dropReturn back ∧
      finalReturn (front ++ c :: back) = finalReturn back := by
  rcases List.eq_nil_or_concat back with rfl | ⟨kept, last, rfl⟩
  · simp [dropReturn, finalReturn, other]
  · have shape : front ++ c :: (kept ++ [last]) = (front ++ c :: kept) ++ [last] := by simp
    rw [List.concat_eq_append, shape]
    simp only [dropReturn, finalReturn, List.getLast?_concat, List.dropLast_concat]
    split
    · exact ⟨rfl, trivial⟩
    · exact ⟨shape.symm, trivial⟩

theorem blankSeparated_append (blank : isBlank c = true) (front back : Text) :
    blankSeparated (front ++ c :: back) = blankSeparated front ++ blankSeparated back := by
  rw [blankSeparated, List.splitOnP_append_cons front back blank, List.filter_append]
  rfl

theorem blankSeparated_blanks_append (blanks : ∀ c ∈ front, isBlank c = true) (t : Text) :
    blankSeparated (front ++ t) = blankSeparated t := by
  induction front with
  | nil => rfl
  | cons c rest ih =>
    have cut := blankSeparated_append (blanks c List.mem_cons_self) [] (rest ++ t)
    rw [ih fun d member => blanks d (List.mem_cons_of_mem c member)] at cut
    exact cut

theorem blankSeparated_blanks (blanks : ∀ c ∈ t, isBlank c = true) : blankSeparated t = [] := by
  have nothing := blankSeparated_blanks_append blanks []
  rwa [List.append_nil] at nothing

theorem blankSeparated_word (present : t ≠ []) (solid : ∀ c ∈ t, isBlank c = false) :
    blankSeparated t = [t] := by
  rw [blankSeparated, List.splitOnP_eq_singleton solid]
  simp [present]

theorem blankSeparated_trimEnd (t : Text) : blankSeparated (trimEnd t) = blankSeparated t := by
  obtain ⟨blanks, whole, blank⟩ := exists_trimEnd t
  nth_rewrite 2 [whole]
  cases blanks with
  | nil => rw [List.append_nil]
  | cons c rest =>
    have later : ∀ d ∈ rest, isBlank d = true := fun d member => blank d (List.mem_cons_of_mem c member)
    rw [blankSeparated_append (blank c List.mem_cons_self), blankSeparated_blanks later, List.append_nil]

def blankCodes : List Nat :=
  [0x09, 0x0A, 0x0B, 0x0C, 0x0D, 0x20, 0x85, 0xA0, 0x1680, 0x2000, 0x2001, 0x2002, 0x2003, 0x2004,
    0x2005, 0x2006, 0x2007, 0x2008, 0x2009, 0x200A, 0x2028, 0x2029, 0x202F, 0x205F, 0x3000]

theorem toNat_mem_blankCodes (blank : isBlank c = true) : c.toNat ∈ blankCodes := by
  simp only [isBlank, Bool.or_eq_true, Bool.and_eq_true, decide_eq_true_eq, beq_iff_eq] at blank
  simp only [blankCodes, List.mem_cons, List.not_mem_nil, or_false]
  omega

theorem isWord_ofNat_blankCodes : ∀ n ∈ blankCodes, isWord (Char.ofNat n) = false := by
  decide

-- A class of characters has no blank when it has none of their code points.
theorem outside_of_isBlank {p : Char → Bool} (apart : ∀ n ∈ blankCodes, p (Char.ofNat n) = false)
    (blank : isBlank c = true) : p c = false := by
  have outside := apart c.toNat (toNat_mem_blankCodes blank)
  rwa [Char.ofNat_toNat] at outside

theorem isBlank_of_class {p : Char → Bool} (apart : ∀ n ∈ blankCodes, p (Char.ofNat n) = false)
    (inside : p c = true) : isBlank c = false := by
  apply Bool.eq_false_iff.mpr
  intro blank
  rw [outside_of_isBlank apart blank] at inside
  cases inside

theorem isBlank_of_isWord (word : isWord c = true) : isBlank c = false :=
  isBlank_of_class isWord_ofNat_blankCodes word

theorem isWord_of_isBlank (blank : isBlank c = true) : isWord c = false :=
  outside_of_isBlank isWord_ofNat_blankCodes blank

theorem ne_of_class {p : Char → Bool} {d : Char} (inside : p c = true) (outside : p d = false) :
    c ≠ d := by
  rintro rfl
  rw [inside] at outside
  cases outside

theorem false_of_isBlank {p : Char → Bool} (solid : p c = true → isBlank c = false)
    (blank : isBlank c = true) : p c = false := by
  apply Bool.eq_false_iff.mpr
  intro inside
  exact ne_of_class blank (solid inside) rfl

end BlockMarkup
