import BlockMarkup.Proofs.Block.Moved

namespace BlockMarkup

variable {lines front back : List Text} {start stop : Nat} {found : PropertyLine}

-- The lines after `start` and before `past` are properties or blank, and all stand before `stop`.
structure LeadingRun (lines : List Text) (start stop past : Nat) : Prop where
  after : start < past
  leading : ∀ number, start < number → number < past →
    number < stop ∧ ∃ line, lineAt? lines number = some line ∧ Leading line

structure LongestRun (lines : List Text) (start stop past : Nat) : Prop
    extends LeadingRun lines start stop past where
  longest : ∀ other, LeadingRun lines start stop other → other ≤ past

structure PropertiesBetween (lines : List Text) (start past : Nat) (cluster : List PropertyLine) :
    Prop where
  ordered : cluster.Pairwise fun first second => first.line < second.line
  mem_iff : ∀ found, found ∈ cluster ↔ start < found.line ∧ found.line < past ∧
    (lineAt? lines found.line).map Line.classify =
      some (.property found.indent found.key found.value)

theorem exists_leading (lines : List Text) : ∃ front back, lines = front ++ back ∧
    (∀ line ∈ front, Leading line) ∧ ∀ line ∈ back.head?, ¬Leading line := by
  induction lines with
  | nil => exact ⟨[], [], rfl, by simp, by simp⟩
  | cons line rest ih =>
    by_cases leads : Leading line
    · obtain ⟨front, back, rfl, leading, ends⟩ := ih
      exact ⟨line :: front, back, rfl, List.forall_mem_cons.mpr ⟨leads, leading⟩, ends⟩
    · exact ⟨[], line :: rest, rfl, by simp, by simpa using leads⟩

theorem clusterFrom_sorted (number : Nat) (lines : List Text) :
    (clusterFrom number lines).Pairwise fun first second => first.line < second.line := by
  induction lines generalizing number with
  | nil => exact .nil
  | cons line rest ih =>
    rw [clusterFrom]
    split
    · refine .cons (fun later member => ?_) (ih (number + 1))
      exact (mem_clusterFrom_bounds member).1
    · exact ih (number + 1)
    · exact .nil

theorem mem_clusterFrom_iff (leading : ∀ line ∈ front, Leading line) :
    found ∈ clusterFrom number front ↔ ∃ index, found.line = number + index ∧
      (front[index]?).map Line.classify = some (.property found.indent found.key found.value) := by
  constructor
  · intro member
    obtain ⟨before, after, cut⟩ := List.append_of_mem member
    obtain ⟨above, line, below, rfl, there, _⟩ := clusterFrom_cut cut
    exact ⟨above.length, there.place, by simp [there.read]⟩
  · rintro ⟨index, place, kind⟩
    obtain ⟨line, there, read⟩ := Option.map_eq_some_iff.mp kind
    have named : lineAt? front (index + 1) = some line := there
    obtain ⟨above, below, rfl, length⟩ := exists_cut_of_lineAt? named
    rw [List.forall_mem_append] at leading
    rw [clusterFrom_append leading.1, clusterFrom, read, ← Nat.succ.inj length, ← place]
    exact List.mem_append_right _ List.mem_cons_self

theorem getElem?_between (lines : List Text) (start stop index : Nat) :
    ((lines.take (stop - 1)).drop start)[index]? =
      if start + 1 + index < stop then lineAt? lines (start + 1 + index) else none := by
  rw [List.getElem?_drop, List.getElem?_take, Nat.add_right_comm]
  have same : start + index < stop - 1 ↔ start + index + 1 < stop := by omega
  simp only [same]
  rfl

section cut

variable (cut : (lines.take (stop - 1)).drop start = front ++ back)
include cut

theorem lineAt?_of_cut {index : Nat} (short : index < front.length) :
    start + 1 + index < stop ∧ lineAt? lines (start + 1 + index) = front[index]? := by
  have there := getElem?_between lines start stop index
  rw [cut, List.getElem?_append_left short] at there
  split at there
  · rename_i before
    exact ⟨before, there.symm⟩
  · rw [List.getElem?_eq_getElem short] at there
    cases there

theorem longestRun_of_cut (leading : ∀ line ∈ front, Leading line)
    (ends : ∀ line ∈ back.head?, ¬Leading line) :
    LongestRun lines start stop (start + 1 + front.length) := by
  refine ⟨⟨by omega, fun number after before => ?_⟩, fun other run => ?_⟩
  · obtain ⟨index, rfl⟩ := Nat.exists_eq_add_of_le (Nat.succ_le_of_lt after)
    have short : index < front.length := by omega
    obtain ⟨inside, there⟩ := lineAt?_of_cut cut short
    exact ⟨inside, front[index], there.trans (List.getElem?_eq_getElem short),
      leading _ (List.getElem_mem short)⟩
  · -- A longer run would go past the line that ends this one.
    apply Nat.le_of_not_lt
    intro longer
    obtain ⟨inside, line, there, leads⟩ := run.leading _ (by omega) longer
    have last := getElem?_between lines start stop front.length
    rw [cut, List.getElem?_append_right (Nat.le_refl _), Nat.sub_self, if_pos inside, there,
      ← List.head?_eq_getElem?] at last
    exact ends line last leads

theorem propertiesBetween_of_cut (leading : ∀ line ∈ front, Leading line) :
    PropertiesBetween lines start (start + 1 + front.length) (clusterFrom (start + 1) front) := by
  refine ⟨clusterFrom_sorted _ _, fun found => (mem_clusterFrom_iff leading).trans ⟨?_, ?_⟩⟩
  · rintro ⟨index, place, kind⟩
    obtain ⟨line, there, _⟩ := Option.map_eq_some_iff.mp kind
    have short := (List.getElem?_eq_some_iff.mp there).1
    rw [place, (lineAt?_of_cut cut short).2]
    exact ⟨by omega, by omega, kind⟩
  · rintro ⟨after, before, kind⟩
    obtain ⟨index, place⟩ := Nat.exists_eq_add_of_le (Nat.succ_le_of_lt after)
    have short : index < front.length := by omega
    rw [place, (lineAt?_of_cut cut short).2] at kind
    exact ⟨index, place, kind⟩

end cut

theorem longestRun_propertyCluster (lines : List Text) (start stop : Nat) :
    ∃ past, LongestRun lines start stop past ∧
      PropertiesBetween lines start past (propertyCluster lines start stop) := by
  obtain ⟨front, back, cut, leading, ends⟩ := exists_leading ((lines.take (stop - 1)).drop start)
  refine ⟨start + 1 + front.length, longestRun_of_cut cut leading ends, ?_⟩
  rw [propertyCluster, cut, clusterFrom_append_stop ends]
  exact propertiesBetween_of_cut cut leading

theorem classify_of_mem_propertyCluster (member : found ∈ propertyCluster lines start stop) :
    (lineAt? lines found.line).map Line.classify =
      some (.property found.indent found.key found.value) := by
  obtain ⟨_, _, between⟩ := longestRun_propertyCluster lines start stop
  exact ((between.mem_iff found).mp member).2.2

-- From an earlier end on the cluster is the same, without the lines from there on.
theorem clusterFrom_take (number count : Nat) (lines : List Text) :
    clusterFrom number (lines.take count) =
      (clusterFrom number lines).filter fun found => found.line < number + count := by
  induction lines generalizing number count with
  | nil =>
    rw [List.take_nil]
    rfl
  | cons line rest ih =>
    cases count with
    | zero =>
      have none : ∀ found ∈ clusterFrom number (line :: rest), ¬found.line < number + 0 :=
        fun found member => Nat.not_lt.mpr (mem_clusterFrom_bounds member).1
      rw [List.take_zero, List.filter_eq_nil_iff.mpr (by simpa using none)]
      rfl
    | succ count =>
      have next : number + 1 + count = number + (count + 1) := by omega
      rw [List.take_succ_cons, clusterFrom, clusterFrom, ih, next]
      split
      · rw [List.filter_cons_of_pos (by simp)]
      · rfl
      · rfl

theorem propertyCluster_eq_filter (lines : List Text) (start stop : Nat) :
    propertyCluster lines start stop =
      (clusterFrom (start + 1) (lines.drop start)).filter fun found => found.line < stop := by
  rw [propertyCluster, List.drop_take, clusterFrom_take]
  refine List.filter_congr fun found member => ?_
  have bound := (mem_clusterFrom_bounds member).1
  rw [decide_eq_decide]
  omega

theorem line_lt_boundaryAfter (member : found ∈ clusterFrom (start + 1) (lines.drop start)) :
    found.line < boundaryAfter lines start := by
  rw [← propertyCluster_boundaryAfter (Nat.le_refl start), propertyCluster_eq_filter] at member
  simpa using (List.mem_filter.mp member).2

theorem propertyCluster_of_boundary (reaches : boundaryAfter lines start ≤ stop) :
    propertyCluster lines start stop = clusterFrom (start + 1) (lines.drop start) := by
  rw [propertyCluster_eq_filter, List.filter_eq_self]
  intro found member
  exact decide_eq_true (Nat.lt_of_lt_of_le (line_lt_boundaryAfter member) reaches)

end BlockMarkup
