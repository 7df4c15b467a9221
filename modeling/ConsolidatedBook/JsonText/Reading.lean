import ConsolidatedBook.JsonText
import Mathlib.Data.List.TakeWhile

/-! The reader finds the document of every text that the grammar has for it. -/

namespace JsonText

variable {α : Type} {item : List Char → Option (α × List Char)} {reads : α → List Char → Prop} {close : Char}
  {bound : Nat}

/-- A number does not go on there. -/
def Stops (rest : List Char) : Prop := ∀ c ∈ rest.head?, isNumberChar c = false

/-- The text begins with something other than a blank or a bracket that closes. -/
def Begins (text : List Char) : Prop :=
  ∃ c rest, text = c :: rest ∧ isSpace c = false ∧ c ≠ ']' ∧ c ≠ '\x7d'

/-- The reader of items finds each one, whatever stands behind it, in texts up to a length. -/
def Finds (item : List Char → Option (α × List Char)) (reads : α → List Char → Prop) (bound : Nat) : Prop :=
  ∀ a text, reads a text → text.length ≤ bound →
    Begins text ∧ ∀ rest, Stops rest → item (text ++ rest) = some (a, rest)

/-- A character that closes a list of items. -/
structure Closer (close : Char) : Prop where
  bracket : close = ']' ∨ close = '\x7d'

theorem Closer.ne_comma (closer : Closer close) : close ≠ ',' := by
  rcases closer.bracket with rfl | rfl <;> decide

theorem Closer.visible (closer : Closer close) : isSpace close = false := by
  rcases closer.bracket with rfl | rfl <;> decide

theorem Closer.stops (closer : Closer close) : isNumberChar close = false := by
  rcases closer.bracket with rfl | rfl <;> decide

theorem skipSpaces_append {before : List Char} (spaces : Spaces before) {c : Char} {rest : List Char}
    (visible : isSpace c = false) : skipSpaces (before ++ c :: rest) = c :: rest := by
  unfold skipSpaces
  have other : ¬ isSpace c = true := by
    rw [visible]
    exact Bool.false_ne_true
  rw [List.dropWhile_append_of_pos spaces, List.dropWhile_cons_of_neg other]

/-- No blank is a character of a number. -/
theorem not_number_of_space {c : Char} (space : isSpace c = true) : isNumberChar c = false := by
  simp only [isSpace, Bool.or_eq_true, decide_eq_true_eq] at space
  rcases space with ((rfl | rfl) | rfl) | rfl <;> decide

theorem stops_append {behind : List Char} (spaces : Spaces behind) {c : Char} {rest : List Char}
    (stops : isNumberChar c = false) : Stops (behind ++ c :: rest) := by
  intro first head
  cases behind with
  | nil =>
    cases head
    exact stops
  | cons space behind =>
    cases head
    exact not_number_of_space (spaces _ List.mem_cons_self)

theorem length_of_codeUnit {digits : List Char} {c : Char} (known : codeUnit digits = some c) :
    digits.length = 4 := by
  unfold codeUnit at known
  cases numbers : digits.mapM hexDigit with
  | none =>
    rw [numbers] at known
    cases known
  | some code =>
    simp only [numbers, Option.bind_eq_bind, Option.bind_some] at known
    by_contra other
    rw [if_neg fun both => other both.1] at known
    cases known

theorem readCharacters_append {string text : List Char} (characters : Characters string text) {fuel : Nat}
    (enough : text.length < fuel) (rest : List Char) :
    readCharacters fuel (text ++ '"' :: rest) = some (string, rest) := by
  induction characters generalizing fuel with
  | nil =>
    obtain ⟨fuel, rfl⟩ := Nat.exists_eq_add_of_lt enough
    rfl
  | @plain c string text quote backslash printable _ ih =>
    obtain ⟨fuel, rfl⟩ := Nat.exists_eq_add_of_lt enough
    have later := ih (show text.length < text.length + 1 + fuel by omega)
    simp only [List.cons_append, List.length_cons, readCharacters, if_neg quote, if_neg backslash,
      if_pos printable, later]
    rfl
  | @escape e c string text known _ ih =>
    obtain ⟨fuel, rfl⟩ := Nat.exists_eq_add_of_lt enough
    have later := ih (show text.length < text.length + 1 + 1 + fuel by omega)
    simp only [List.cons_append, List.length_cons, readCharacters, readEscape, known, later]
    rfl
  | @unicode digits c string text known _ ih =>
    obtain ⟨fuel, rfl⟩ := Nat.exists_eq_add_of_lt enough
    have unknown : escaped 'u' = none := by decide
    have shorter : text.length < (digits ++ text).length + 1 + 1 + fuel := by
      rw [List.length_append]
      omega
    have later := ih shorter
    have four := length_of_codeUnit known
    simp only [List.cons_append, List.length_cons, readCharacters, readEscape, unknown, if_pos, List.append_assoc,
      List.take_left' four, List.drop_left' four, known, Option.map_some, later]
    rfl

/-- One item with the blanks around it, and what comes next. -/
theorem item_append (finds : Finds item reads bound) {a : α} {before text behind : List Char}
    (spaces : Spaces before) (isItem : reads a text) (spaces' : Spaces behind) (short : text.length ≤ bound)
    {c : Char} (rest : List Char) (stops : isNumberChar c = false) :
    item (skipSpaces (before ++ text ++ behind ++ c :: rest)) = some (a, behind ++ c :: rest) := by
  obtain ⟨⟨first, others, rfl, visible, _⟩, found⟩ := finds a text isItem short
  have skipped : skipSpaces (before ++ (first :: others) ++ behind ++ c :: rest) =
      (first :: others) ++ (behind ++ c :: rest) := by
    rw [List.append_assoc, List.append_assoc, List.cons_append]
    exact skipSpaces_append spaces visible
  rw [skipped]
  exact found _ (stops_append spaces' stops)

theorem readSeparated_append (finds : Finds item reads bound) (closer : Closer close) {items : List α}
    {text : List Char} (separated : Separated reads items text) (short : text.length ≤ bound) {fuel : Nat}
    (enough : text.length < fuel) (rest : List Char) :
    readSeparated item close fuel (text ++ close :: rest) = some (items, rest) := by
  induction separated generalizing fuel with
  | @single a before text behind spaces isItem spaces' =>
    obtain ⟨fuel, rfl⟩ := Nat.exists_eq_add_of_lt enough
    simp only [List.length_append] at short
    have found := item_append finds spaces isItem spaces' (by omega) rest closer.stops
    simp only [readSeparated, found, skipSpaces_append spaces' closer.visible, if_neg closer.ne_comma, if_pos]
  | @cons a items before text behind others spaces isItem spaces' _ ih =>
    obtain ⟨fuel, rfl⟩ := Nat.exists_eq_add_of_lt enough
    simp only [List.length_append, List.length_cons] at short enough ih
    have comma : isNumberChar ',' = false := by decide
    have blank : isSpace ',' = false := by decide
    have found := item_append finds spaces isItem spaces' (by omega) (others ++ close :: rest) comma
    have later := ih (by omega) (show others.length < before.length + text.length + behind.length +
      (others.length + 1) + fuel by omega)
    have whole : before ++ text ++ behind ++ ',' :: others ++ close :: rest =
        before ++ text ++ behind ++ ',' :: (others ++ close :: rest) := by
      rw [List.append_assoc _ (',' :: others), List.cons_append]
    rw [whole]
    simp only [readSeparated, List.length_append, List.length_cons, found, skipSpaces_append spaces' blank, if_pos,
      later]
    rfl

/-- Separated items begin, after blanks, with the first of them. -/
theorem Separated.begins (finds : Finds item reads bound) {items : List α} {text : List Char}
    (separated : Separated reads items text) (short : text.length ≤ bound) (rest : List Char) :
    ∃ c others, skipSpaces (text ++ rest) = c :: others ∧ c ≠ ']' ∧ c ≠ '\x7d' := by
  cases separated with
  | @single a before text behind spaces isItem _ =>
    simp only [List.length_append] at short
    obtain ⟨⟨c, others, rfl, visible, ne, ne'⟩, _⟩ := finds a text isItem (by omega)
    refine ⟨c, others ++ (behind ++ rest), ?_, ne, ne'⟩
    rw [List.append_assoc, List.append_assoc, List.cons_append]
    exact skipSpaces_append spaces visible
  | @cons a items before text behind later spaces isItem _ _ =>
    simp only [List.length_append] at short
    obtain ⟨⟨c, others, rfl, visible, ne, ne'⟩, _⟩ := finds a text isItem (by omega)
    refine ⟨c, others ++ (behind ++ (',' :: later ++ rest)), ?_, ne, ne'⟩
    rw [List.append_assoc, List.append_assoc, List.append_assoc, List.cons_append]
    exact skipSpaces_append spaces visible

theorem readBody_append (finds : Finds item reads bound) (closer : Closer close) {items : List α}
    {text : List Char} (body : Body reads items text) (short : text.length ≤ bound) (rest : List Char) :
    readBody item close (text ++ close :: rest) = some (items, rest) := by
  cases body with
  | empty spaces => simp only [readBody, skipSpaces_append spaces closer.visible, if_pos]
  | items separated =>
    obtain ⟨c, others, skipped, ne, ne'⟩ := separated.begins finds short (close :: rest)
    have open_ : c ≠ close := by
      rcases closer.bracket with rfl | rfl
      · exact ne
      · exact ne'
    have enough : text.length < (text ++ close :: rest).length := by
      rw [List.length_append, List.length_cons]
      omega
    simp only [readBody, skipped, if_neg open_]
    exact readSeparated_append finds closer separated short enough rest

theorem finds_member {value : List Char → Option (Json × List Char)} (finds : Finds value Value bound) :
    Finds (readMember value) (Member Value) bound := by
  intro field text member short
  cases member with
  | @mk key field name before behind text characters spaces spaces' isValue =>
    simp only [List.length_cons, List.length_append] at short
    obtain ⟨⟨first, others, rfl, visible, _⟩, found⟩ := finds field text isValue (by omega)
    refine ⟨⟨'"', _, rfl, by decide, by decide, by decide⟩, fun rest stops => ?_⟩
    have colon : isSpace ':' = false := by decide
    have quoted := readCharacters_append characters
      (show name.length < (name ++ '"' :: (before ++ ':' :: (behind ++ (first :: others) ++ rest))).length by
        rw [List.length_append, List.length_cons]; omega)
      (before ++ ':' :: (behind ++ (first :: others) ++ rest))
    have skipped : skipSpaces (behind ++ (first :: others) ++ rest) = (first :: others) ++ rest := by
      rw [List.append_assoc, List.cons_append]
      exact skipSpaces_append spaces' visible
    have whole : '"' :: (name ++ '"' :: (before ++ ':' :: (behind ++ (first :: others)))) ++ rest =
        '"' :: (name ++ '"' :: (before ++ ':' :: (behind ++ (first :: others) ++ rest))) := by
      simp only [List.cons_append, List.append_assoc]
    rw [whole]
    simp only [readMember, if_pos, quoted, skipSpaces_append spaces colon, skipped, found rest stops]
    rfl

theorem mem_words {word : List Char × Json} :
    word ∈ words ↔ word = (['t', 'r', 'u', 'e'], .bool true) ∨ word = (['f', 'a', 'l', 's', 'e'], .bool false) ∨
      word = (['n', 'u', 'l', 'l'], .null) := by
  simp only [words, List.mem_cons, List.not_mem_nil, or_false]

theorem readWord_append {value : Json} {text : List Char} (word : (text, value) ∈ words) (rest : List Char) :
    readWord (text ++ rest) = some (value, rest) := by
  rcases mem_words.mp word with same | same | same <;> (cases same; rfl)

theorem not_number_of_begin {c : Char} (number : isNumberChar c = true) :
    isSpace c = false ∧ c ≠ ']' ∧ c ≠ '\x7d' ∧ c ≠ '"' ∧ c ≠ '[' ∧ c ≠ '\x7b' := by
  refine ⟨?_, ?_, ?_, ?_, ?_, ?_⟩
  · by_contra blank
    rw [not_number_of_space (Bool.not_eq_false _ ▸ blank)] at number
    cases number
  all_goals
    rintro rfl
    exact absurd number (by decide)

theorem Value.begins {value : Json} {text : List Char} (isValue : Value value text) : Begins text := by
  cases isValue with
  | string characters => exact ⟨'"', _, rfl, by decide, by decide, by decide⟩
  | number some_ numeric _ =>
    obtain ⟨c, rest, rfl⟩ := List.exists_cons_of_ne_nil some_
    obtain ⟨visible, ne, ne', _⟩ := not_number_of_begin (numeric c List.mem_cons_self)
    exact ⟨c, rest, rfl, visible, ne, ne'⟩
  | word word =>
    rcases mem_words.mp word with same | same | same
    all_goals
      cases same
      exact ⟨_, _, rfl, by decide, by decide, by decide⟩
  | array _ => exact ⟨'[', _, rfl, by decide, by decide, by decide⟩
  | object _ => exact ⟨'\x7b', _, rfl, by decide, by decide, by decide⟩

theorem token_append {token rest : List Char} (numeric : ∀ c ∈ token, isNumberChar c = true)
    (stops : Stops rest) :
    (token ++ rest).takeWhile isNumberChar = token ∧ (token ++ rest).dropWhile isNumberChar = rest := by
  rw [List.takeWhile_append_of_pos numeric, List.dropWhile_append_of_pos numeric]
  cases rest with
  | nil => exact ⟨List.append_nil token, rfl⟩
  | cons c rest =>
    have other : ¬ isNumberChar c = true := by
      rw [stops c rfl]
      exact Bool.false_ne_true
    rw [List.takeWhile_cons_of_neg other, List.dropWhile_cons_of_neg other, List.append_nil]
    exact ⟨rfl, rfl⟩

/-- By induction on the fuel, which bounds the nesting: what is inside of a value is shorter. -/
theorem finds_readValue (fuel : Nat) : Finds (readValue fuel) Value fuel := by
  induction fuel with
  | zero =>
    intro value text isValue short
    obtain ⟨c, rest, rfl, _⟩ := isValue.begins
    exact absurd short (Nat.not_succ_le_zero _)
  | succ fuel ih =>
    intro value text isValue short
    refine ⟨isValue.begins, fun rest stops => ?_⟩
    cases isValue with
    | @string string text characters =>
      have enough : text.length < (text ++ '"' :: rest).length := by
        rw [List.length_append, List.length_cons]
        omega
      have found := readCharacters_append characters enough rest
      simp only [List.cons_append, List.append_assoc, List.nil_append, readValue, if_pos, found]
      rfl
    | number some_ numeric known =>
      obtain ⟨c, others, rfl⟩ := List.exists_cons_of_ne_nil some_
      have first := numeric c List.mem_cons_self
      obtain ⟨_, _, _, quote, bracket, brace⟩ := not_number_of_begin first
      obtain ⟨taken, behind⟩ := token_append numeric stops
      rw [List.cons_append] at taken behind ⊢
      simp only [readValue, if_neg quote, if_neg bracket, if_neg brace, if_pos first, taken, behind, known]
      rfl
    | word word =>
      have asWord : readValue (fuel + 1) (text ++ rest) = readWord (text ++ rest) := by
        rcases mem_words.mp word with same | same | same <;> (cases same; rfl)
      rw [asWord, readWord_append word]
    | @array items text body =>
      simp only [List.length_cons, List.length_append, List.length_nil] at short
      have found := readBody_append ih ⟨Or.inl rfl⟩ body (by omega) rest
      have other : ('[' : Char) ≠ '"' := by decide
      simp only [List.cons_append, List.append_assoc, List.nil_append, readValue, if_neg other, if_pos, found]
      rfl
    | @object fields text body =>
      simp only [List.length_cons, List.length_append, List.length_nil] at short
      have found := readBody_append (finds_member ih) ⟨Or.inr rfl⟩ body (by omega) rest
      have other : ('\x7b' : Char) ≠ '"' := by decide
      have other' : ('\x7b' : Char) ≠ '[' := by decide
      simp only [List.cons_append, List.append_assoc, List.nil_append, readValue, if_neg other, if_neg other', if_pos,
        found]
      rfl

/-- The text of a document is read as that document, and so has no other. -/
theorem read_document {document : Json} {text : String} (isText : Document document text) :
    read text = some document := by
  obtain ⟨before, inner, behind, spaces, isValue, spaces', rfl⟩ := isText
  have skipped : skipSpaces (before ++ inner ++ behind) = inner ++ behind := by
    obtain ⟨c, rest, rfl, visible, _⟩ := isValue.begins
    rw [List.append_assoc, List.cons_append]
    exact skipSpaces_append spaces visible
  have stops : Stops behind := by
    intro c head
    exact not_number_of_space (spaces' c (List.mem_of_mem_head? head))
  have short : inner.length ≤ (before ++ inner ++ behind).length := by
    rw [List.length_append, List.length_append]
    omega
  have found := (finds_readValue _ document inner isValue short).2 behind stops
  have nothing : skipSpaces behind = [] := List.dropWhile_eq_nil_iff.mpr spaces'
  simp only [read, String.toList_ofList, skipped, found, nothing, if_pos]

/-- A text that the grammar has for one document is no other document's text. -/
theorem Document.unique {document other : Json} {text : String} (isText : Document document text) :
    Document other text ↔ other = document := by
  constructor
  · intro isOther
    exact Option.some.inj ((read_document isOther).symm.trans (read_document isText))
  · rintro rfl
    exact isText

end JsonText
