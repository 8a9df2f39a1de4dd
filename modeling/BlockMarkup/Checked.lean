import BlockMarkup.Text.Lines
import BlockMarkup.Text.Number

namespace BlockMarkup

inductive Fault where
  -- A sum above the greatest word, or a difference below zero.
  | overflow
  | outOfRange
deriving DecidableEq

abbrev Checked (α : Type) := Except Fault α

namespace Checked

variable {α : Type}

theorem ok_bind {β : Type} (a : α) (next : α → Checked β) :
    ((.ok a : Checked α) >>= next) = next a := rfl

def sum (a b : Nat) : Checked Nat := if a + b ≤ maxWord then .ok (a + b) else .error .overflow

def difference (a b : Nat) : Checked Nat := if b ≤ a then .ok (a - b) else .error .overflow

def boundedSum (a : Nat) (offset : Int) : Nat := min ((a : Int) + offset).toNat maxWord

theorem sum_eq_ok {a b : Nat} (fits : a + b ≤ maxWord) : sum a b = .ok (a + b) := if_pos fits

theorem difference_eq_ok {a b : Nat} (fits : b ≤ a) : difference a b = .ok (a - b) := if_pos fits

def get (items : List α) (index : Nat) : Checked α :=
  match items[index]? with
  | some item => .ok item
  | none => .error .outOfRange

def set (items : List α) (index : Nat) (item : α) : Checked (List α) :=
  if index < items.length then .ok (items.set index item) else .error .outOfRange

def erase (items : List α) (index : Nat) : Checked (List α) :=
  if index < items.length then .ok (items.eraseIdx index) else .error .outOfRange

def insert (items : List α) (index : Nat) (item : α) : Checked (List α) :=
  if index ≤ items.length then .ok (items.take index ++ item :: items.drop index)
  else .error .outOfRange

def itemsFrom (items : List α) (index : Nat) : Checked (List α) :=
  if index ≤ items.length then .ok (items.drop index) else .error .outOfRange

def line (lines : List Text) (number : Nat) : Checked Text := do
  get lines (← difference number 1)

theorem line_eq_ok {lines : List Text} {number : Nat} {text : Text}
    (there : lineAt? lines number = some text) : line lines number = .ok text := by
  cases number with
  | zero => cases there
  | succ index =>
    rw [line, difference_eq_ok (Nat.succ_pos index), ok_bind, Nat.succ_sub_one, get]
    rw [lineAt?] at there
    rw [there]

def searchDown (answer : Nat → Checked (Option α)) : (count : Nat) → Checked (Option α)
  | 0 => .ok none
  | number + 1 => do
    match ← answer (number + 1) with
    | some found => .ok (some found)
    | none => searchDown answer number

def searchUp (passes : Nat → Checked Bool) :
    (count number : Nat) → Checked (Option { found : Nat // number ≤ found })
  | 0, _ => .ok none
  | count + 1, number => do
    if ← passes number then .ok (some ⟨number, Nat.le_refl number⟩)
    else
      match ← searchUp passes count (number + 1) with
      | some ⟨found, later⟩ => .ok (some ⟨found, Nat.le_of_succ_le later⟩)
      | none => .ok none

end Checked
end BlockMarkup
