import BlockMarkup.Identifier
import BlockMarkup.Proofs.Text
import Mathlib.Data.List.Perm.Subperm

namespace BlockMarkup

theorem isDecimal_of_isDigit {c : Char} (digit : c.isDigit = true) : isDecimal c = true := by
  have bounds : c.toNat < 128 := by
    simp only [Char.isDigit, Bool.and_eq_true, decide_eq_true_eq] at digit
    have upper : c.val.toNat ≤ 57 := digit.2
    exact Nat.lt_of_le_of_lt upper (by decide)
  rw [isDecimal, if_pos bounds, digit]

theorem isDigit_of_mem_decimal {n : Nat} {c : Char} (member : c ∈ decimal n) : c.isDigit = true :=
  Nat.isDigit_of_mem_toDigits (by decide) (by decide) member

theorem decimal_ne_nil (n : Nat) : decimal n ≠ [] := Nat.toDigits_ne_nil

theorem word?_eq_some {digits : Text} {n : Nat} (read : word? digits = some n) :
    digits ≠ [] ∧ (∀ c ∈ digits, c.isDigit = true) ∧ Nat.ofDigitChars 10 digits 0 = n := by
  unfold word? at read
  dsimp only at read
  split at read
  · rename_i ascii
    split at read
    · simp only [Bool.and_eq_true, Bool.not_eq_true', List.isEmpty_eq_false_iff,
        List.all_eq_true] at ascii
      exact ⟨ascii.1, ascii.2, Option.some.inj read⟩
    · cases read
  · cases read

namespace Identifier

variable {before other : Option Char} {front back t : Text} {n : Nat}

theorem isWord_of_mem_decimal {c : Char} (member : c ∈ decimal n) : isWord c = true :=
  isWord_of_isDecimal (isDecimal_of_isDigit (isDigit_of_mem_decimal member))

theorem isWord_of_mem_text {c : Char} (member : c ∈ text n) : isWord c = true := by
  rcases List.mem_cons.mp member with rfl | digit
  · decide
  · exact isWord_of_mem_decimal digit

theorem text_ne_nil (n : Nat) : text n ≠ [] := List.cons_ne_nil _ _

theorem endsFilled_text (n : Nat) : EndsFilled (text n) :=
  fun _ last => isBlank_of_isWord (isWord_of_mem_text (List.mem_of_getLast? last))

theorem trim_text (n : Nat) : trim (text n) = text n :=
  trim_eq_self (startsFilled_cons.mpr (by decide)) (endsFilled_text n)

theorem text_injective : Function.Injective text := by
  intro n m same
  have digits : decimal n = decimal m := List.tail_eq_of_cons_eq same
  have value : ∀ k, Nat.ofDigitChars 10 (decimal k) 0 = k := fun _ => Nat.ofDigitChars_ten_toDigits
  rw [← value n, digits, value m]

theorem newline_notMem_text (n : Nat) : '\n' ∉ text n := by
  intro member
  cases isBlank_of_isWord (isWord_of_mem_text member)

def StartsApart (t : Text) : Prop := ∀ c ∈ t.head?, isWord c = false

theorem startsApart_nil : StartsApart [] := by
  intro c first
  cases first

theorem startsApart_cons {c : Char} : StartsApart (c :: t) ↔ isWord c = false := by
  simp [StartsApart]

instance : DecidablePred StartsApart
  | [] => isTrue startsApart_nil
  | c :: _ => decidable_of_iff (isWord c = false) startsApart_cons.symm

namespace StartsApart

theorem of_blanks (blanks : ∀ c ∈ t, isBlank c = true) : StartsApart t :=
  fun _ first => isWord_of_isBlank (blanks _ (List.mem_of_mem_head? first))

theorem append (apart : StartsApart front) (stop : StartsApart back) : StartsApart (front ++ back) := by
  cases front with
  | nil => exact stop
  | cons c rest => exact startsApart_cons.mpr (startsApart_cons.mp apart)

theorem head?_ne (apart : StartsApart t) : t.head? ≠ some 's' := by
  intro mark
  cases apart 's' mark

end StartsApart

theorem leadingNumber?_append (stop : StartsApart back) (front : Text) :
    leadingNumber? (front ++ back) = leadingNumber? front := by
  have noDigit : ∀ c ∈ back.head?, isDecimal c = false := by
    intro c first
    apply Bool.eq_false_iff.mpr
    intro digit
    have word := isWord_of_isDecimal digit
    rw [stop c first] at word
    cases word
  obtain ⟨taken, left⟩ := takeWhile_append_of_stop noDigit front
  have ends : (front.dropWhile isDecimal ++ back).head?.any isWord =
      (front.dropWhile isDecimal).head?.any isWord := by
    cases front.dropWhile isDecimal with
    | nil =>
      cases back with
      | nil => rfl
      | cons c rest => simp [stop c rfl]
    | cons c rest => rfl
  rw [leadingNumber?, leadingNumber?, taken, left, ends]

theorem numberAt?_of_ne {c : Char} (other : c ≠ 's') : numberAt? before (c :: t) = none := by
  simp [numberAt?, other]

theorem numberAt?_append (stop : StartsApart back) (c : Char) (front : Text) :
    numberAt? before (c :: (front ++ back)) = numberAt? before (c :: front) := by
  by_cases mark : c = 's'
  · rw [mark, numberAt?, numberAt?, leadingNumber?_append stop]
  · rw [numberAt?_of_ne mark, numberAt?_of_ne mark]

theorem numbersFrom_append (stop : StartsApart back) (before : Option Char) (front : Text) :
    numbersFrom before (front ++ back) =
      numbersFrom before front ++ numbersFrom (front.getLast?.or before) back := by
  induction front generalizing before with
  | nil => rfl
  | cons c rest ih =>
    rw [List.cons_append, numbersFrom, numbersFrom, numberAt?_append stop, ih, getLast?_cons_or,
      List.append_assoc]

-- Wherever a text is cut, the numbers in its rest are numbers of the whole.
theorem numbersFrom_suffix (before : Option Char) (front back : Text) :
    numbersFrom (front.getLast?.or before) back <:+ numbersFrom before (front ++ back) := by
  induction front generalizing before with
  | nil => exact List.suffix_refl _
  | cons c rest ih =>
    rw [getLast?_cons_or, List.cons_append, numbersFrom]
    exact (ih (some c)).trans (List.suffix_append _ _)

theorem numbersFrom_of_notMem (absent : 's' ∉ t) (before : Option Char) : numbersFrom before t = [] := by
  induction t generalizing before with
  | nil => rfl
  | cons c rest ih =>
    simp only [List.mem_cons, not_or] at absent
    rw [numbersFrom, numberAt?_of_ne (Ne.symm absent.1), ih absent.2]
    rfl

theorem numbersFrom_before (apart : StartsApart t) (before other : Option Char) :
    numbersFrom before t = numbersFrom other t := by
  cases t with
  | nil => rfl
  | cons c rest =>
    have unmarked : c ≠ 's' := by simpa using apart.head?_ne
    rw [numbersFrom, numbersFrom, numberAt?_of_ne unmarked, numberAt?_of_ne unmarked]

theorem leadingNumber?_digits {digits : Text} (present : digits ≠ [])
    (ascii : ∀ c ∈ digits, c.isDigit = true) (fits : Nat.ofDigitChars 10 digits 0 ≤ maxWord) :
    leadingNumber? digits = some (Nat.ofDigitChars 10 digits 0) := by
  have decimals : ∀ c ∈ digits, isDecimal c = true :=
    fun c member => isDecimal_of_isDigit (ascii c member)
  have taken : digits.takeWhile isDecimal = digits := List.takeWhile_eq_self_iff.mpr decimals
  have left : digits.dropWhile isDecimal = [] := List.dropWhile_eq_nil_iff.mpr decimals
  have all : digits.all Char.isDigit = true := List.all_eq_true.mpr ascii
  simp [leadingNumber?, taken, left, word?, present, all, fits]

theorem numbersFrom_text {c : Char} (apart : joinsName c = false) (fits : n ≤ maxWord) :
    numbersFrom (some c) (text n) = [n] := by
  have value : Nat.ofDigitChars 10 (decimal n) 0 = n := Nat.ofDigitChars_ten_toDigits
  have read := leadingNumber?_digits (decimal_ne_nil n) (fun _ => isDigit_of_mem_decimal)
    (value.symm ▸ fits)
  have noMark : 's' ∉ decimal n := by
    intro member
    cases isDigit_of_mem_decimal member
  rw [text, numbersFrom, numbersFrom_of_notMem noMark, numberAt?, read, value]
  simp [apart]

-- An identifier with these digits stands in a text: no name before it goes on in it, and no word does
-- after it.
def Stands (digits t : Text) : Prop :=
  ∃ front back, t = front ++ 's' :: (digits ++ back) ∧
    (∀ c ∈ front.getLast?, joinsName c = false) ∧ StartsApart back

theorem mem_numbersFrom_iff : n ∈ numbersFrom before t ↔
    ∃ front digits back, t = front ++ 's' :: (digits ++ back) ∧
      (∀ c ∈ front.getLast?.or before, joinsName c = false) ∧ StartsApart back ∧ digits ≠ [] ∧
      (∀ c ∈ digits, c.isDigit = true) ∧ Nat.ofDigitChars 10 digits 0 = n ∧ n ≤ maxWord := by
  constructor
  · intro member
    induction t generalizing before with
    | nil => cases member
    | cons c rest ih =>
      rw [numbersFrom] at member
      rcases List.mem_append.mp member with here | later
      · have read : numberAt? before (c :: rest) = some n := by simpa using here
        by_cases mark : c = 's'
        · rw [mark, numberAt?] at read
          split at read
          · cases read
          rename_i apart
          unfold leadingNumber? at read
          split at read
          · cases read
          rename_i ends
          obtain ⟨present, ascii, value⟩ := word?_eq_some read
          refine ⟨[], rest.takeWhile isDecimal, rest.dropWhile isDecimal, ?_, ?_, ?_, present, ascii,
            value, word?_le read⟩
          · rw [List.takeWhile_append_dropWhile, mark, List.nil_append]
          · exact (Option.any_eq_false ..).mp (by simpa using apart)
          · exact (Option.any_eq_false ..).mp (by simpa using ends)
        · rw [numberAt?_of_ne mark] at read
          cases read
      · obtain ⟨front, digits, back, rfl, apart, found⟩ := ih later
        refine ⟨c :: front, digits, back, rfl, ?_, found⟩
        rwa [getLast?_cons_or]
  · rintro ⟨front, digits, back, rfl, apart, stop, present, ascii, rfl, fits⟩
    apply (numbersFrom_suffix before front _).subset
    have unjoined : (front.getLast?.or before).any joinsName = false :=
      (Option.any_eq_false ..).mpr apart
    rw [numbersFrom, numberAt?, leadingNumber?_append stop,
      leadingNumber?_digits present ascii fits]
    simp [unjoined]

theorem mem_numbers_iff : n ∈ numbers t ↔
    n ≤ maxWord ∧ ∃ digits, Stands digits t ∧ digits ≠ [] ∧ (∀ c ∈ digits, c.isDigit = true) ∧
      Nat.ofDigitChars 10 digits 0 = n := by
  rw [numbers, mem_numbersFrom_iff]
  simp only [Option.or_none]
  constructor
  · rintro ⟨front, digits, back, whole, apart, stop, present, ascii, value, fits⟩
    exact ⟨fits, digits, ⟨front, back, whole, apart, stop⟩, present, ascii, value⟩
  · rintro ⟨fits, digits, ⟨front, back, whole, apart, stop⟩, present, ascii, value⟩
    exact ⟨front, digits, back, whole, apart, stop, present, ascii, value, fits⟩

-- A text gets one more identifier, in place of a piece that has none. Neither piece joins what stands
-- before or after it.
inductive Gains (n : Nat) : Text → Text → Prop
  | spliced (front : Text) {gap named back : Text} (absent : 's' ∉ gap)
      (one : ∀ before, numbersFrom before named = [n]) (gapApart : StartsApart gap)
      (namedApart : StartsApart named) (stop : StartsApart back) :
      Gains n (front ++ (gap ++ back)) (front ++ (named ++ back))

variable {source changed : Text}

theorem Gains.numbers_perm (gains : Gains n source changed) :
    (numbers changed).Perm (n :: numbers source) := by
  obtain ⟨front, absent, one, gapApart, namedApart, stop⟩ := gains
  rename_i gap named back
  rw [numbers, numbers, numbersFrom_append (gapApart.append stop),
    numbersFrom_append (namedApart.append stop), numbersFrom_append stop, numbersFrom_append stop,
    numbersFrom_of_notMem absent, one,
    numbersFrom_before stop (named.getLast?.or (front.getLast?.or none))]
  exact List.perm_middle

theorem Gains.within (gains : Gains n source changed) (stop : StartsApart back) (front : Text) :
    Gains n (front ++ (source ++ back)) (front ++ (changed ++ back)) := by
  obtain ⟨before, absent, one, gapApart, namedApart, stopAfter⟩ := gains
  have longer := Gains.spliced (front ++ before) absent one gapApart namedApart (stopAfter.append stop)
  simpa only [List.append_assoc] using longer

structure Wraps (mark close : Text) : Prop where
  one : ∀ n before, n ≤ maxWord → numbersFrom before (mark ++ (text n ++ close)) = [n]
  apart : ∀ rest, StartsApart (mark ++ rest)

theorem wraps_of_mark (mark : Text) (c : Char) (close : Text)
    (marks : StartsApart mark ∧ numbersFrom none mark = [] ∧ isWord c = false ∧
      joinsName c = false ∧ 's' ∉ close ∧ StartsApart close) : Wraps (mark ++ [c]) close := by
  obtain ⟨apart, absentMark, solid, joins, absent, stop⟩ := marks
  have startsSolid : ∀ rest, StartsApart (c :: rest) := fun _ => startsApart_cons.mpr solid
  have unmarked : c ≠ 's' := by simpa using (startsSolid []).head?_ne
  refine ⟨fun n before fits => ?_, fun rest => ?_⟩
  · rw [List.append_assoc, List.singleton_append, numbersFrom_append (startsSolid _),
      numbersFrom_before apart before none, absentMark, numbersFrom, numberAt?_of_ne unmarked,
      numbersFrom_append stop, numbersFrom_text joins fits, numbersFrom_of_notMem absent]
    rfl
  · rw [List.append_assoc]
    exact apart.append (startsSolid rest)

namespace Wraps

variable {mark close gap : Text}

theorem gains (wraps : Wraps mark close) (fits : n ≤ maxWord) (absent : 's' ∉ gap)
    (gapApart : StartsApart gap) (stop : StartsApart back) (front : Text) :
    Gains n (front ++ (gap ++ back)) (front ++ (mark ++ (text n ++ close) ++ back)) :=
  .spliced front absent (fun before => wraps.one n before fits) gapApart (wraps.apart _) stop

theorem gains_behind (wraps : Wraps mark close) (fits : n ≤ maxWord) (stop : StartsApart back)
    (t : Text) : Gains n (t ++ back) (trimEnd t ++ (mark ++ (text n ++ close) ++ back)) := by
  obtain ⟨blanks, cut, blank⟩ := exists_trimEnd t
  have absent : 's' ∉ blanks := by
    intro member
    cases blank 's' member
  have gains := wraps.gains fits absent (.of_blanks blank) stop (trimEnd t)
  rwa [← List.append_assoc, ← cut] at gains

end Wraps

-- Of one more candidate than there are members, one is free.
theorem exists_leastFree (used : List Nat) :
    ∃ free, leastFree used = free ∧ free ∉ used ∧ 1 ≤ free ∧ free ≤ used.length + 1 := by
  cases found : (List.range' 1 (used.length + 1)).find? fun n => !used.contains n with
  | some free =>
    have candidate := List.mem_range'_1.mp (List.mem_of_find?_eq_some found)
    refine ⟨free, by rw [leastFree, found, Option.getD_some], ?_, candidate.1, by omega⟩
    simpa using List.find?_some found
  | none =>
    have taken : List.range' 1 (used.length + 1) ⊆ used := by
      intro n candidate
      simpa using List.find?_eq_none.mp found n candidate
    have distinct : (List.range' 1 (used.length + 1)).Nodup := List.nodup_range'
    have fewer := (distinct.subperm taken).length_le
    rw [List.length_range'] at fewer
    omega

theorem nextNumber_notMem (source : Text) : nextNumber source ∉ numbers source := by
  unfold nextNumber max?
  split
  · rename_i none
    rw [List.max?_eq_none_iff.mp none]
    exact List.not_mem_nil
  · rename_i greatest found
    split
    · intro member
      have least := (List.max?_eq_some_iff.mp found).2 _ member
      omega
    · obtain ⟨free, same, absent, _⟩ := exists_leastFree (numbers source)
      rwa [same]

theorem nextNumber_pos (source : Text) : 1 ≤ nextNumber source := by
  unfold nextNumber
  split
  · exact Nat.le_refl 1
  · split
    · exact Nat.le_add_left 1 _
    · obtain ⟨free, same, _, positive, _⟩ := exists_leastFree (numbers source)
      rwa [same]

theorem nextNumber_le (room : (numbers source).length < maxWord) : nextNumber source ≤ maxWord := by
  unfold nextNumber max?
  split
  · decide
  · split
    · assumption
    · obtain ⟨free, same, _, _, bound⟩ := exists_leastFree (numbers source)
      omega

theorem length_numbersFrom_le (before : Option Char) (t : Text) :
    (numbersFrom before t).length ≤ t.length := by
  induction t generalizing before with
  | nil => exact Nat.le_refl 0
  | cons c rest ih =>
    have later := ih (some c)
    have here : (numberAt? before (c :: rest)).toList.length ≤ 1 := by
      cases numberAt? before (c :: rest) <;> simp
    rw [numbersFrom, List.length_append, List.length_cons]
    omega

end Identifier
end BlockMarkup
