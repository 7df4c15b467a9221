import ConsolidatedBook.ReadNextJsonObject.OneObject
import ConsolidatedBook.ReadNextJsonObject.Splitting
import ConsolidatedBook.JsonText.Reading

namespace ConsolidatedBook

open JsonText (Spaces Characters Separated Body Member Value)

/-- Braces match: the depth comes back to where it was and never falls below that. -/
structure Balanced (text : List Char) : Prop where
  total (depth : Int) : braceDepth depth text = depth
  above (depth : Int) {part : List Char} : part <+: text → depth ≤ braceDepth depth part

theorem NoBrace.balanced {text : List Char} (noBrace : NoBrace text) : Balanced text where
  total depth := noBrace.braceDepth depth
  above depth part before := by
    have fewer : NoBrace part := fun c member => noBrace c (before.subset member)
    exact Int.le_of_eq (fewer.braceDepth depth).symm

theorem Balanced.append {first second : List Char} (balanced : Balanced first) (balanced' : Balanced second) :
    Balanced (first ++ second) where
  total depth := by rw [braceDepth_append, balanced.total, balanced'.total]
  above depth part before := by
    obtain ⟨rest, same⟩ := before
    rcases List.append_eq_append_iff.mp same with ⟨between, short, _⟩ | ⟨between, rfl, inside⟩
    · exact balanced.above depth ⟨between, short.symm⟩
    · rw [braceDepth_append, balanced.total]
      exact balanced'.above depth ⟨rest, inside.symm⟩

theorem Balanced.enclosed {inner : List Char} (balanced : Balanced inner) : Enclosed inner where
  positive before := by
    have above := balanced.above 1 before
    omega
  even := balanced.total 1

theorem Balanced.braces {inner : List Char} (balanced : Balanced inner) :
    Balanced ('\x7b' :: (inner ++ ['\x7d'])) where
  total depth := by
    have opened : braceDepth depth ('\x7b' :: (inner ++ ['\x7d'])) = braceDepth (depth + 1) (inner ++ ['\x7d']) := rfl
    have closed : braceDepth (depth + 1) ['\x7d'] = depth + 1 - 1 := rfl
    rw [opened, braceDepth_append, balanced.total, closed]
    omega
  above depth part before := by
    cases part with
    | nil => exact Int.le_refl depth
    | cons c part =>
      obtain ⟨rfl, inside⟩ := List.cons_prefix_cons.mp before
      have opened : braceDepth depth ('\x7b' :: part) = braceDepth (depth + 1) part := rfl
      rcases List.prefix_concat_iff.mp inside with rfl | short
      · have closed : braceDepth (depth + 1) ['\x7d'] = depth + 1 - 1 := rfl
        rw [opened, braceDepth_append, balanced.total, closed]
        omega
      · have above := balanced.above (depth + 1) short
        omega

theorem NoBrace.append {first second : List Char} (noBrace : NoBrace first) (noBrace' : NoBrace second) :
    NoBrace (first ++ second) := List.forall_mem_append.mpr ⟨noBrace, noBrace'⟩

theorem NoBrace.cons {c : Char} {text : List Char} (other : c ≠ '\x7b' ∧ c ≠ '\x7d') (noBrace : NoBrace text) :
    NoBrace (c :: text) := List.forall_mem_cons.mpr ⟨other, noBrace⟩

/-- A class of characters that both braces are outside of. -/
theorem ne_braces (isIn : Char → Bool) {c : Char} (inside : isIn c = true) (opens : isIn '\x7b' = false)
    (closes : isIn '\x7d' = false) : c ≠ '\x7b' ∧ c ≠ '\x7d' := by
  constructor
  · rintro rfl
    cases opens.symm.trans inside
  · rintro rfl
    cases closes.symm.trans inside

theorem noBrace_spaces {text : List Char} (spaces : Spaces text) : NoBrace text := fun c member =>
  ne_braces JsonText.isSpace (spaces c member) (by decide) (by decide)

theorem noBrace_number {text : List Char} (numeric : ∀ c ∈ text, JsonText.isNumberChar c = true) : NoBrace text :=
  fun c member => ne_braces JsonText.isNumberChar (numeric c member) (by decide) (by decide)

theorem noBrace_word {value : Json} {text : List Char} (word : (text, value) ∈ JsonText.words) : NoBrace text := by
  simp only [JsonText.words, List.mem_cons, Prod.mk.injEq, List.not_mem_nil, or_false] at word
  have letters : ∀ c ∈ text, c.isLower = true := by
    rcases word with ⟨rfl, _⟩ | ⟨rfl, _⟩ | ⟨rfl, _⟩ <;> exact List.all_eq_true.mp rfl
  exact fun c member => ne_braces Char.isLower (letters c member) (by decide) (by decide)

theorem noBrace_hexDigits {digits : List Char} {values : List Nat}
    (hexadecimal : digits.mapM JsonText.hexDigit = some values) : NoBrace digits := by
  induction digits generalizing values with
  | nil => exact List.forall_mem_nil _
  | cons digit digits ih =>
    rw [List.mapM_cons] at hexadecimal
    obtain ⟨value, isDigit, others⟩ := Option.bind_eq_some_iff.mp hexadecimal
    obtain ⟨rest, isRest, _⟩ := Option.bind_eq_some_iff.mp others
    have inside : (JsonText.hexDigit digit).isSome = true := by rw [isDigit, Option.isSome_some]
    exact .cons (ne_braces (fun c => (JsonText.hexDigit c).isSome) inside rfl rfl) (ih isRest)

theorem noBrace_codeUnit {digits : List Char} {c : Char} (known : JsonText.codeUnit digits = some c) :
    NoBrace digits := by
  obtain ⟨values, hexadecimal, _⟩ := Option.bind_eq_some_iff.mp known
  exact noBrace_hexDigits hexadecimal

/-- A brace in the text of a string is one in the string: no escape has braces. -/
theorem noBrace_characters {string text : List Char} (characters : Characters string text)
    (noBrace : NoBrace string) : NoBrace text := by
  induction characters with
  | nil => exact noBrace
  | plain _ _ _ _ ih =>
    obtain ⟨here, others⟩ := List.forall_mem_cons.mp noBrace
    exact .cons here (ih others)
  | @escape e c string text known _ ih =>
    have inside : (JsonText.escaped e).isSome = true := by rw [known, Option.isSome_some]
    have other := ne_braces (fun c => (JsonText.escaped c).isSome) inside rfl rfl
    exact .cons (by decide) (.cons other (ih (List.forall_mem_cons.mp noBrace).2))
  | unicode known _ ih =>
    have digits := noBrace_codeUnit known
    exact .cons (by decide) (.cons (by decide) (digits.append (ih (List.forall_mem_cons.mp noBrace).2)))

/-- No string in the document has a brace. -/
inductive Braceless : Json → Prop
  | null : Braceless .null
  | bool {value} : Braceless (.bool value)
  | integer {negative magnitude} : Braceless (.integer negative magnitude)
  | real {value} : Braceless (.real value)
  | string {text} : NoBrace text.toList → Braceless (.string text)
  | array {items} : (∀ item ∈ items, Braceless item) → Braceless (.array items)
  | object {fields} : (∀ field ∈ fields, NoBrace field.1.toList) → (∀ field ∈ fields, Braceless field.2) →
      Braceless (.object fields)

section Grammar

variable {α : Type} {item : α → List Char → Prop} {items : List α} {text : List Char}

theorem balanced_separated (separated : Separated item items text)
    (each : ∀ a ∈ items, ∀ text, item a text → Balanced text) : Balanced text := by
  induction separated with
  | @single a before text behind spaces isItem spaces' =>
    have inner := each a List.mem_cons_self text isItem
    exact ((noBrace_spaces spaces).balanced.append inner).append (noBrace_spaces spaces').balanced
  | @cons a items before text behind others spaces isItem spaces' _ ih =>
    have inner := each a List.mem_cons_self text isItem
    have rest := ih fun a member => each a (List.mem_cons_of_mem _ member)
    have comma : Balanced [','] := NoBrace.balanced (.cons (by decide) (List.forall_mem_nil _))
    have first := ((noBrace_spaces spaces).balanced.append inner).append (noBrace_spaces spaces').balanced
    exact first.append (comma.append rest)

theorem balanced_body (body : Body item items text) (each : ∀ a ∈ items, ∀ text, item a text → Balanced text) :
    Balanced text := by
  cases body with
  | empty spaces => exact (noBrace_spaces spaces).balanced
  | items separated => exact balanced_separated separated each

end Grammar

theorem balanced_quoted {string text : List Char} (characters : Characters string text) (noBrace : NoBrace string) :
    Balanced ('"' :: (text ++ ['"'])) := by
  have inside := noBrace_characters characters noBrace
  exact NoBrace.balanced (.cons (by decide) (inside.append (.cons (by decide) (List.forall_mem_nil _))))

theorem balanced_member {field : String × Json} {text : List Char} (member : Member Value field text)
    (named : NoBrace field.1.toList) (each : ∀ text, Value field.2 text → Balanced text) : Balanced text := by
  cases member with
  | @mk key json name before behind text characters spaces spaces' isValue =>
    have quoted := balanced_quoted characters (by rwa [String.toList_ofList] at named)
    have colon : Balanced (before ++ ':' :: behind) :=
      ((noBrace_spaces spaces).append (.cons (by decide) (noBrace_spaces spaces'))).balanced
    have whole := (quoted.append colon).append (each text isValue)
    simpa only [List.cons_append, List.append_assoc, List.nil_append] using whole

/-- In a text of a document without braces in its strings, the braces match. -/
theorem balanced_value {value : Json} (braceless : Braceless value) {text : List Char} (isValue : Value value text) :
    Balanced text := by
  induction braceless generalizing text with
  | null | bool | integer | real =>
    cases isValue with
    | number _ numeric _ => exact (noBrace_number numeric).balanced
    | word member => exact (noBrace_word member).balanced
  | string noBrace =>
    cases isValue with
    | string characters => exact balanced_quoted characters (by rwa [String.toList_ofList] at noBrace)
    | number _ numeric _ => exact (noBrace_number numeric).balanced
    | word member => exact (noBrace_word member).balanced
  | array _ ih =>
    cases isValue with
    | @array _ inner body =>
      have balanced := balanced_body body fun item member text isItem => ih item member isItem
      have opening : Balanced ['['] := NoBrace.balanced (.cons (by decide) (List.forall_mem_nil _))
      have closing : Balanced [']'] := NoBrace.balanced (.cons (by decide) (List.forall_mem_nil _))
      exact opening.append (balanced.append closing)
    | number _ numeric _ => exact (noBrace_number numeric).balanced
    | word member => exact (noBrace_word member).balanced
  | object named _ ih =>
    cases isValue with
    | @object _ inner body =>
      have balanced := balanced_body body fun field member text isMember =>
        balanced_member isMember (named field member) fun _ isField => ih field member isField
      exact balanced.braces
    | number _ numeric _ => exact (noBrace_number numeric).balanced
    | word member => exact (noBrace_word member).balanced

theorem numberOf_ne_object (token : List Char) (fields : List (String × Json)) :
    JsonText.numberOf token ≠ some (.object fields) := by
  intro isObject
  unfold JsonText.numberOf at isObject
  extract_lets unsigned digits at isObject
  split_ifs at isObject
  generalize Numeral.natural unsigned = magnitude at isObject
  cases magnitude with
  | some => cases isObject
  | none =>
    obtain ⟨value, _, same⟩ := Option.map_eq_some_iff.mp isObject
    cases same

theorem object_text {fields : List (String × Json)} (braceless : Braceless (.object fields)) {text : List Char}
    (isValue : Value (.object fields) text) : ∃ inner, text = '\x7b' :: (inner ++ ['\x7d']) ∧ Balanced inner := by
  cases braceless with
  | object named others =>
    cases isValue with
    | @object _ inner body =>
      refine ⟨inner, rfl, balanced_body body fun field member text isMember => ?_⟩
      exact balanced_member isMember (named field member) fun _ isField => balanced_value (others field member) isField
    | number _ _ isObject => exact absurd isObject (numberOf_ne_object _ _)
    | word member => simp [JsonText.words] at member

/-- An object written over lines of its own, with blanks at most behind it. -/
def SpelledBy (fields : List (String × Json)) (lines : List String) : Prop :=
  ∃ text blank, Value (.object fields) text ∧ Spaces blank ∧ '\n' ∉ blank ∧
    (textOf lines).toList = text ++ (blank ++ ['\n'])

/-- Objects one after another, with gaps around them. -/
inductive DocumentLines : List (List (String × Json)) → List String → Prop
  | done {gap} : IsGap gap → DocumentLines [] gap
  | next {gap fields lines objects rest} : IsGap gap → Braceless (.object fields) → SpelledBy fields lines →
      DocumentLines objects rest → DocumentLines (fields :: objects) (gap ++ (lines ++ rest))

variable {fields : List (String × Json)} {lines : List String}

/-- The first line that ends with all braces closed is the object's last. -/
theorem SpelledBy.settles (spelled : SpelledBy fields lines) (braceless : Braceless (.object fields)) :
    Settles 0 lines := by
  obtain ⟨text, blank, isValue, spaces, oneLine, whole⟩ := spelled
  obtain ⟨inner, rfl, balanced⟩ := object_text braceless isValue
  rw [List.cons_append, List.append_assoc, List.singleton_append, ← List.cons_append] at whole
  obtain ⟨earlier, head, tail, later, rfl, opens, behind⟩ := textOf_split (by decide) whole
  have last : tail = blank ∧ later = [] := by
    rcases List.append_eq_append_iff.mp behind with ⟨between, rfl, ends⟩ | ⟨between, rfl, ends⟩
    · cases between with
      | nil =>
        have nothing := (List.cons.inj ends).2
        cases later with
        | nil => exact ⟨List.append_nil _, rfl⟩
        | cons line later =>
          rw [toList_textOf_cons] at nothing
          exact absurd nothing.symm (List.append_ne_nil_of_right_ne_nil _ (List.cons_ne_nil _ _))
      | cons c between =>
        have short := congrArg List.length ends
        simp only [List.length_cons, List.length_append, List.length_nil] at short
        omega
    · cases between with
      | nil =>
        have nothing := (List.cons.inj ends).2
        cases later with
        | nil => exact ⟨(List.append_nil _).symm, rfl⟩
        | cons line later =>
          rw [toList_textOf_cons] at nothing
          exact absurd nothing (List.append_ne_nil_of_right_ne_nil _ (List.cons_ne_nil _ _))
      | cons c between =>
        obtain ⟨rfl, _⟩ := List.cons.inj ends
        exact absurd (List.mem_append_right tail List.mem_cons_self) oneLine
  obtain ⟨rfl, rfl⟩ := last
  exact settles_of_match opens.symm balanced.enclosed (noBrace_spaces spaces)

theorem SpelledBy.fromBrace (spelled : SpelledBy fields lines) (braceless : Braceless (.object fields))
    (rest : List String) : fromBrace (lines ++ rest) = lines ++ rest := by
  obtain ⟨text, blank, isValue, _, _, whole⟩ := spelled
  obtain ⟨inner, rfl, _⟩ := object_text braceless isValue
  cases lines with
  | nil => cases whole
  | cons line lines =>
    rw [toList_textOf_cons] at whole
    have opens : ['\x7b'] <+: line.toList := by
      cases characters : line.toList with
      | nil =>
        rw [characters] at whole
        exact absurd (List.cons.inj whole).1 (by decide)
      | cons c characters' =>
        rw [characters] at whole
        obtain ⟨rfl, _⟩ := List.cons.inj whole
        exact ⟨characters', rfl⟩
    have found : StringView.find line "\x7b" = some 0 := StringView.find_eq_zero.mpr opens
    rw [List.cons_append, ConsolidatedBook.fromBrace, found]
    simp only [StringView.substr, List.drop_zero, String.ofList_toList]

/-- What is returned for the object is a text of it. -/
theorem SpelledBy.read (spelled : SpelledBy fields lines) : JsonText.read (textOf lines) = some (.object fields) := by
  obtain ⟨text, blank, isValue, spaces, _, whole⟩ := spelled
  refine JsonText.read_document ⟨[], text, blank ++ ['\n'], JsonText.spaces_nil, isValue, ?_, ?_⟩
  · have lineBreak : Spaces ['\n'] := List.forall_mem_singleton.mpr rfl
    exact List.forall_mem_append.mpr ⟨spaces, lineBreak⟩
  · rw [List.nil_append, ← whole, String.ofList_toList]

theorem DocumentLines.readJsonObjects {objects : List (List (String × Json))}
    (written : DocumentLines objects lines) :
    ∃ texts, readJsonObjects lines (objects.length + 1) = texts.map some ++ [none] ∧
      List.Forall₂ (fun text fields => JsonText.read text = some (.object fields)) texts objects := by
  induction written with
  | done isGap =>
    refine ⟨[], ?_, .nil⟩
    simp only [List.length_nil, ConsolidatedBook.readJsonObjects, readNextJsonObject_gap isGap]
    rfl
  | @next gap fields lines objects rest isGap braceless spelled _ ih =>
    obtain ⟨texts, others, parsed⟩ := ih
    have returned : readNextJsonObject (gap ++ (lines ++ rest)) = (some (textOf lines), rest) := by
      rw [readNextJsonObject_eq, fromBrace_gap isGap, spelled.fromBrace braceless,
        readLoop_settled (spelled.settles braceless), String.empty_append]
    refine ⟨textOf lines :: texts, ?_, .cons spelled.read parsed⟩
    rw [List.length_cons, ConsolidatedBook.readJsonObjects, returned, others]
    rfl

/-- A brace in a string is counted like any other. -/
example : (readNextJsonObject ["\x7b\"a\":\"\x7d\"\x7d"]).1 = none := by decide

end ConsolidatedBook
