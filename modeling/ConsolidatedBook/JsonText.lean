import ConsolidatedBook.OnDemand
import ConsolidatedBook.Text

/-! JSON as text: the grammar of documents, and a reader that takes each of
their texts back to the document. -/

namespace JsonText

def isSpace (c : Char) : Bool := c = ' ' || c = '\t' || c = '\n' || c = '\r'

def isNumberChar (c : Char) : Bool := c.isDigit || c = '-' || c = '+' || c = '.' || c = 'e' || c = 'E'

/-- The number that a token stands for: no zeros in front, and digits on both sides of a point. -/
def numberOf (token : List Char) : Option Json :=
  let unsigned := if token.head? = some '-' then token.tail else token
  let whole := unsigned.takeWhile Char.isDigit
  if whole.head? = some '0' ∧ whole ≠ ['0'] then none
  else
    match Numeral.natural unsigned with
    | some magnitude => some (.integer (token.head? = some '-') magnitude)
    | none => (Numeral.decimal (String.ofList token)).map .real

/-- What a character stands for behind a backslash. -/
def escaped (c : Char) : Option Char :=
  [('"', '"'), ('\\', '\\'), ('/', '/'), ('b', '\x08'), ('f', '\x0c'), ('n', '\n'), ('r', '\r'),
    ('t', '\t')].lookup c

def hexDigit (c : Char) : Option Nat :=
  if c.isDigit then some (c.toNat - '0'.toNat)
  else if 'a' ≤ c ∧ c ≤ 'f' then some (c.toNat - 'a'.toNat + 10)
  else if 'A' ≤ c ∧ c ≤ 'F' then some (c.toNat - 'A'.toNat + 10)
  else none

/-- The character of four hexadecimal digits; surrogates stand for none. -/
def codeUnit (digits : List Char) : Option Char := do
  let code := (← digits.mapM hexDigit).foldl (16 * · + ·) 0
  if digits.length = 4 ∧ code.isValidChar then some (Char.ofNat code) else none

def words : List (List Char × Json) :=
  [(['t', 'r', 'u', 'e'], .bool true), (['f', 'a', 'l', 's', 'e'], .bool false), (['n', 'u', 'l', 'l'], .null)]

section Grammar

variable {α : Type}

def Spaces (text : List Char) : Prop := ∀ c ∈ text, isSpace c = true

/-- What stands between the quotes of a string. -/
inductive Characters : List Char → List Char → Prop
  | nil : Characters [] []
  | plain {c string text} : c ≠ '"' → c ≠ '\\' → 0x20 ≤ c.toNat → Characters string text →
      Characters (c :: string) (c :: text)
  | escape {e c string text} : escaped e = some c → Characters string text →
      Characters (c :: string) ('\\' :: e :: text)
  | unicode {digits c string text} : codeUnit digits = some c → Characters string text →
      Characters (c :: string) ('\\' :: 'u' :: (digits ++ text))

/-- Items with commas between them, and blanks around each. -/
inductive Separated (item : α → List Char → Prop) : List α → List Char → Prop
  | single {a before text behind} : Spaces before → item a text → Spaces behind →
      Separated item [a] (before ++ text ++ behind)
  | cons {a items before text behind others} : Spaces before → item a text → Spaces behind →
      Separated item items others → Separated item (a :: items) (before ++ text ++ behind ++ ',' :: others)

/-- The inside of brackets: blanks, or separated items. -/
inductive Body (item : α → List Char → Prop) : List α → List Char → Prop
  | empty {text} : Spaces text → Body item [] text
  | items {items text} : Separated item items text → Body item items text

/-- A name in quotes, a colon, and a value. -/
inductive Member (value : Json → List Char → Prop) : String × Json → List Char → Prop
  | mk {key field name before behind text} : Characters key name → Spaces before → Spaces behind →
      value field text →
      Member value (String.ofList key, field) ('"' :: (name ++ '"' :: (before ++ ':' :: (behind ++ text))))

inductive Value : Json → List Char → Prop
  | string {string text} : Characters string text →
      Value (.string (String.ofList string)) ('"' :: (text ++ ['"']))
  | number {value token} : token ≠ [] → (∀ c ∈ token, isNumberChar c = true) → numberOf token = some value →
      Value value token
  | word {value text} : (text, value) ∈ words → Value value text
  | array {items text} : Body Value items text → Value (.array items) ('[' :: (text ++ [']']))
  | object {fields text} : Body (Member Value) fields text → Value (.object fields) ('\x7b' :: (text ++ ['\x7d']))

/-- A text of the whole document. -/
def Document (document : Json) (text : String) : Prop :=
  ∃ before inner behind, Spaces before ∧ Value document inner ∧ Spaces behind ∧
    text = String.ofList (before ++ inner ++ behind)

theorem spaces_nil : Spaces [] := List.forall_mem_nil _

def isPlainChar (c : Char) : Bool := c != '"' && c != '\\' && Nat.ble 0x20 c.toNat

/-- Characters that need no escape stand for themselves. -/
def IsPlain (text : List Char) : Prop := text.all isPlainChar = true

theorem isPlain_iff {text : List Char} :
    IsPlain text ↔ ∀ c ∈ text, c ≠ '"' ∧ c ≠ '\\' ∧ 0x20 ≤ c.toNat := by
  simp only [IsPlain, isPlainChar, List.all_eq_true, Bool.and_eq_true, bne_iff_ne, Nat.ble_eq, and_assoc]

theorem IsPlain.append {first second : List Char} (plain : IsPlain first) (plain' : IsPlain second) :
    IsPlain (first ++ second) :=
  isPlain_iff.mpr (List.forall_mem_append.mpr ⟨isPlain_iff.mp plain, isPlain_iff.mp plain'⟩)

end Grammar

section Reader

variable {α : Type}

def skipSpaces (text : List Char) : List Char := text.dropWhile isSpace

/-- What stands behind a backslash. -/
def readEscape : List Char → Option (Char × List Char)
  | [] => none
  | e :: rest =>
    match escaped e with
    | some c => some (c, rest)
    | none => if e = 'u' then (codeUnit (rest.take 4)).map fun c => (c, rest.drop 4) else none

/-- The rest of a string, behind the quote that opens it. -/
def readCharacters : Nat → List Char → Option (List Char × List Char)
  | 0, _ => none
  | _ + 1, [] => none
  | fuel + 1, c :: rest =>
    if c = '"' then some ([], rest)
    else if c = '\\' then
      match readEscape rest with
      | none => none
      | some (c, rest) => (readCharacters fuel rest).map fun (string, rest) => (c :: string, rest)
    else if 0x20 ≤ c.toNat then (readCharacters fuel rest).map fun (string, rest) => (c :: string, rest)
    else none

/-- Items with commas between them, up to the bracket that closes them. -/
def readSeparated (item : List Char → Option (α × List Char)) (close : Char) :
    Nat → List Char → Option (List α × List Char)
  | 0, _ => none
  | fuel + 1, text =>
    match item (skipSpaces text) with
    | none => none
    | some (a, rest) =>
      match skipSpaces rest with
      | [] => none
      | c :: rest =>
        if c = ',' then (readSeparated item close fuel rest).map fun (items, rest) => (a :: items, rest)
        else if c = close then some ([a], rest)
        else none

def readBody (item : List Char → Option (α × List Char)) (close : Char) (text : List Char) :
    Option (List α × List Char) :=
  match skipSpaces text with
  | [] => none
  | c :: rest => if c = close then some ([], rest) else readSeparated item close text.length text

def readMember (value : List Char → Option (Json × List Char)) : List Char → Option ((String × Json) × List Char)
  | [] => none
  | c :: rest =>
    if c = '"' then
      match readCharacters rest.length rest with
      | none => none
      | some (key, rest) =>
        match skipSpaces rest with
        | [] => none
        | c :: rest =>
          if c = ':' then (value (skipSpaces rest)).map fun (field, rest) => ((String.ofList key, field), rest)
          else none
    else none

def readWord (text : List Char) : Option (Json × List Char) :=
  words.findSome? fun (word, value) => if word.isPrefixOf text then some (value, text.drop word.length) else none

/-- The value at the front of a text, and what is left behind it. -/
def readValue : Nat → List Char → Option (Json × List Char)
  | 0, _ => none
  | _ + 1, [] => none
  | fuel + 1, c :: rest =>
    if c = '"' then
      (readCharacters rest.length rest).map fun (string, rest) => (.string (String.ofList string), rest)
    else if c = '[' then (readBody (readValue fuel) ']' rest).map fun (items, rest) => (.array items, rest)
    else if c = '\x7b' then
      (readBody (readMember (readValue fuel)) '\x7d' rest).map fun (fields, rest) => (.object fields, rest)
    else if isNumberChar c then
      (numberOf ((c :: rest).takeWhile isNumberChar)).map fun value => (value, (c :: rest).dropWhile isNumberChar)
    else readWord (c :: rest)

def read (text : String) : Option Json :=
  match readValue text.toList.length (skipSpaces text.toList) with
  | none => none
  | some (document, rest) => if skipSpaces rest = [] then some document else none

end Reader

end JsonText
