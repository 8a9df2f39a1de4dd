import BlockMarkup.Json.Reader

namespace BlockMarkup.Json

variable {content : Text} {fuel : Nat} {json : Json}

theorem hexValue?_hexDigit : ∀ n < 16, hexValue? (hexDigit n) = some n := by decide

theorem unit?_hexDigits {n : Nat} (control : n < 32) :
    unit? '0' '0' (hexDigit (n / 16)) (hexDigit (n % 16)) = some n := by
  have zero : hexValue? '0' = some 0 := rfl
  have high := hexValue?_hexDigit (n / 16) (by omega)
  have low := hexValue?_hexDigit (n % 16) (by omega)
  have whole : n / 16 * 16 + n % 16 = n := by omega
  simp [unit?, zero, high, low, whole]

theorem escape_cases (c : Char) :
    (∃ d, escape c = ['\\', d] ∧ d ≠ 'u' ∧ shortEscape? d = some c) ∨
    (escape c = ['\\', 'u', '0', '0', hexDigit (c.toNat / 16), hexDigit (c.toNat % 16)] ∧
      c.toNat < 32) ∨
    (escape c = [c] ∧ c ≠ '"' ∧ c ≠ '\\' ∧ 32 ≤ c.toNat) := by
  by_cases short : c ∈ ['"', '\\', '\x08', '\x0c', '\n', '\r', '\t']
  · left
    simp only [List.mem_cons, List.not_mem_nil, or_false] at short
    rcases short with rfl | rfl | rfl | rfl | rfl | rfl | rfl
    all_goals exact ⟨_, rfl, by decide, rfl⟩
  · right
    simp only [List.mem_cons, List.not_mem_nil, or_false, not_or] at short
    obtain ⟨quote, backslash, back, page, feed, ends, tab⟩ := short
    by_cases control : c.toNat < 32
    · simp [escape, quote, backslash, back, page, feed, ends, tab, control]
    · simp [escape, quote, backslash, back, page, feed, ends, tab, control, Nat.le_of_not_lt]

inductive Stands : Piece → Char → Prop where
  | itself (c : Char) : Stands (.char c) c
  | coded {c : Char} (control : c.toNat < 32) : Stands (.unit c.toNat) c

theorem readPieces_escape (c : Char) : ∃ piece, Stands piece c ∧ ∀ t,
    readPieces (escape c ++ t) =
      (readPieces t).map fun (pieces, after) => (piece :: pieces, after) := by
  rcases escape_cases c with ⟨d, escaped, other, named⟩ | ⟨escaped, control⟩ | ⟨escaped, plain⟩
  · refine ⟨.char c, .itself c, fun t => ?_⟩
    simp [escaped, readPieces, other, named]
  · refine ⟨.unit c.toNat, .coded control, fun t => ?_⟩
    simp [escaped, readPieces, unit?_hexDigits control]
  · obtain ⟨quote, backslash, shown⟩ := plain
    refine ⟨.char c, .itself c, fun t => ?_⟩
    simp [escaped, readPieces, backslash, Nat.not_lt.mpr shown]

-- No control character is half of a pair of units.
theorem assemble_coded {c : Char} (control : c.toNat < 32) (pieces : List Piece) :
    assemble (.unit c.toNat :: pieces) = (assemble pieces).map (c :: ·) := by
  have noHigh : isHighUnit c.toNat = false := by simp [isHighUnit]; omega
  have noLow : isLowUnit c.toNat = false := by simp [isLowUnit]; omega
  cases pieces with
  | nil => simp [assemble, noHigh, noLow]
  | cons next pieces => cases next <;> simp [assemble, noHigh, noLow]

theorem assemble_cons {piece : Piece} {c : Char} (stands : Stands piece c) (pieces : List Piece) :
    assemble (piece :: pieces) = (assemble pieces).map (c :: ·) := by
  cases stands with
  | itself => rw [assemble]
  | coded control => exact assemble_coded control pieces

theorem readPieces_written (content : Text) : ∃ pieces, assemble pieces = some content ∧
    ∀ rest, readPieces (content.flatMap escape ++ '"' :: rest) = some (pieces, rest) := by
  induction content with
  | nil => exact ⟨[], rfl, fun rest => rfl⟩
  | cons c content ih =>
    obtain ⟨pieces, assembled, read⟩ := ih
    obtain ⟨piece, stands, escaped⟩ := readPieces_escape c
    refine ⟨piece :: pieces, by rw [assemble_cons stands, assembled]; rfl, fun rest => ?_⟩
    rw [List.flatMap_cons, List.append_assoc, escaped, read]
    rfl

theorem renderString_append (content rest : Text) :
    renderString content ++ rest = '"' :: (content.flatMap escape ++ '"' :: rest) := by
  simp [renderString]

inductive Textual : Json → Prop where
  | string (content : Text) : Textual (.string content)
  | array {items : List Json} (each : ∀ item ∈ items, Textual item) : Textual (.array items)
  | object {members : List (Text × Json)} (each : ∀ member ∈ members, Textual member.2) :
    Textual (.object members)

theorem Textual.starts (textual : Textual json) :
    ∃ c rest, render json = c :: rest ∧ (c = '"' ∨ c = '[' ∨ c = '\x7b') := by
  cases textual with
  | string content => exact ⟨'"', _, rfl, by simp⟩
  | array each =>
    rename_i items
    cases items with
    | nil => exact ⟨'[', _, rfl, by simp⟩
    | cons item rest => exact ⟨'[', _, rfl, by simp⟩
  | object each =>
    rename_i members
    cases members with
    | nil => exact ⟨'\x7b', _, rfl, by simp⟩
    | cons member rest => exact ⟨'\x7b', _, rfl, by simp⟩

-- What is written for a value is read as it, whatever follows.
def ReadsBack (json : Json) : Prop :=
  ∀ fuel rest, (render json).length ≤ fuel → readValue fuel (render json ++ rest) = some (json, rest)

theorem skipSpace_cons {c : Char} (solid : isSpace c = false) (t : Text) :
    skipSpace (c :: t) = c :: t := by
  simp [skipSpace, solid]

theorem readItems_render {items : List Json} (each : ∀ item ∈ items, ReadsBack item) (rest : Text)
    (enough : (renderItems items).length ≤ fuel) :
    readItems fuel (renderItems items ++ rest) = some (items, rest) := by
  induction items generalizing fuel with
  | nil =>
    obtain ⟨more, rfl⟩ := Nat.exists_eq_add_of_le' enough
    rfl
  | cons item items ih =>
    have shape : renderItems (item :: items) ++ rest =
        ',' :: (render item ++ (renderItems items ++ rest)) := by simp [renderItems]
    simp only [renderItems, List.length_cons, List.length_append] at enough
    obtain ⟨more, rfl⟩ : ∃ more, fuel = more + 1 := ⟨fuel - 1, by omega⟩
    have here := each item List.mem_cons_self more (renderItems items ++ rest) (by omega)
    have later : readItems more (renderItems items ++ rest) = some (items, rest) :=
      ih (fun other member => each other (List.mem_cons_of_mem _ member)) (by omega)
    rw [shape, readItems, skipSpace_cons rfl]
    simp [here, later]

def renderMember (name : Text) (value : Json) : Text := renderString name ++ ':' :: render value

theorem readMember_render {value : Json} {others : List (Text × Json)} {rest : Text} (name : Text)
    (reads : ReadsBack value)
    (later : ∀ fuel, (renderMembers others).length ≤ fuel →
      readMembers fuel (renderMembers others ++ rest) = some (.object others, rest))
    (enough : (renderMember name value ++ renderMembers others).length ≤ fuel) :
    readMember fuel (renderMember name value ++ (renderMembers others ++ rest)) =
      some (.object ((name, value) :: others), rest) := by
  obtain ⟨pieces, assembled, read⟩ := readPieces_written name
  have shape : renderMember name value ++ (renderMembers others ++ rest) =
      '"' :: (name.flatMap escape ++
        '"' :: ':' :: (render value ++ (renderMembers others ++ rest))) := by
    rw [renderMember, List.append_assoc, renderString_append, List.cons_append]
  simp only [renderMember, renderString, List.length_append, List.length_cons] at enough
  obtain ⟨more, rfl⟩ : ∃ more, fuel = more + 1 := ⟨fuel - 1, by omega⟩
  have here := reads more (renderMembers others ++ rest) (by omega)
  rw [shape, readMember, skipSpace_cons rfl]
  simp [read, skipSpace_cons, isSpace, here, later more (by omega), withMember, assembled]

theorem readMembers_render {members : List (Text × Json)}
    (each : ∀ member ∈ members, ReadsBack member.2) (rest : Text)
    (enough : (renderMembers members).length ≤ fuel) :
    readMembers fuel (renderMembers members ++ rest) = some (.object members, rest) := by
  induction members generalizing fuel with
  | nil =>
    obtain ⟨more, rfl⟩ := Nat.exists_eq_add_of_le' enough
    rfl
  | cons member members ih =>
    obtain ⟨name, value⟩ := member
    have shape : renderMembers ((name, value) :: members) =
        ',' :: (renderMember name value ++ renderMembers members) := by
      simp [renderMembers, renderMember]
    rw [shape, List.length_cons] at enough
    obtain ⟨more, rfl⟩ : ∃ more, fuel = more + 1 := ⟨fuel - 1, by omega⟩
    have here := readMember_render name (each (name, value) List.mem_cons_self)
      (fun fuel fits => ih (fun other member => each other (List.mem_cons_of_mem _ member)) fits)
      (Nat.le_of_succ_le_succ enough)
    rw [shape, List.cons_append, List.append_assoc, readMembers, skipSpace_cons rfl]
    exact here

theorem readsBack_array {items : List Json} (each : ∀ item ∈ items, Textual item)
    (reads : ∀ item ∈ items, ReadsBack item) : ReadsBack (.array items) := by
  intro fuel rest enough
  cases items with
  | nil =>
    obtain ⟨more, rfl⟩ := Nat.exists_eq_add_of_le' enough
    rfl
  | cons item items =>
    have shape : render (.array (item :: items)) ++ rest =
        '[' :: (render item ++ (renderItems items ++ rest)) := by simp [render]
    simp only [render, List.length_cons, List.length_append] at enough
    obtain ⟨more, rfl⟩ : ∃ more, fuel = more + 1 := ⟨fuel - 1, by omega⟩
    have here := reads item List.mem_cons_self more (renderItems items ++ rest) (by omega)
    have later : readItems more (renderItems items ++ rest) = some (items, rest) :=
      readItems_render (fun other member => reads other (List.mem_cons_of_mem _ member)) rest
        (by omega)
    obtain ⟨c, text, written, starts⟩ := (each item List.mem_cons_self).starts
    rw [shape, readValue, skipSpace_cons rfl]
    rw [written, List.cons_append] at here ⊢
    rcases starts with rfl | rfl | rfl
    all_goals simp [skipSpace_cons, isSpace, here, later]

theorem readsBack_object {members : List (Text × Json)}
    (reads : ∀ member ∈ members, ReadsBack member.2) : ReadsBack (.object members) := by
  intro fuel rest enough
  cases members with
  | nil =>
    obtain ⟨more, rfl⟩ := Nat.exists_eq_add_of_le' enough
    rfl
  | cons member members =>
    obtain ⟨name, value⟩ := member
    have shape : render (.object ((name, value) :: members)) =
        '\x7b' :: (renderMember name value ++ renderMembers members) := by
      simp [render, renderMember]
    rw [shape, List.length_cons] at enough
    obtain ⟨more, rfl⟩ : ∃ more, fuel = more + 1 := ⟨fuel - 1, by omega⟩
    have first : ReadsBack value := reads (name, value) List.mem_cons_self
    have others := fun member inside => reads member (List.mem_cons_of_mem (name, value) inside)
    have here := readMember_render name first (fun fuel fits => readMembers_render others rest fits)
      (Nat.le_of_succ_le_succ enough)
    obtain ⟨text, quoted⟩ :
        ∃ text, renderMember name value ++ (renderMembers members ++ rest) = '"' :: text := ⟨_, rfl⟩
    rw [shape, List.cons_append, List.append_assoc, readValue, skipSpace_cons rfl]
    rw [quoted] at here ⊢
    simp [skipSpace_cons, isSpace, here]

theorem readsBack_of_textual (textual : Textual json) : ReadsBack json := by
  induction textual with
  | string content =>
    intro fuel rest enough
    rw [render, renderString, List.cons_append, List.length_cons] at enough
    obtain ⟨more, rfl⟩ : ∃ more, fuel = more + 1 := ⟨fuel - 1, by omega⟩
    obtain ⟨pieces, assembled, read⟩ := readPieces_written content
    rw [render, renderString_append, readValue, skipSpace_cons rfl]
    simp [read, ofPieces, assembled]
  | array each reads => exact readsBack_array each reads
  | object each reads => exact readsBack_object reads

theorem ofText?_render (textual : Textual json) : ofText? (render json) = some json := by
  have read := readsBack_of_textual textual ((render json).length + 1) [] (Nat.le_succ _)
  rw [List.append_nil] at read
  simp [ofText?, read, skipSpace]

end BlockMarkup.Json
