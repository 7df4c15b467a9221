import ConsolidatedBook.Text
import Mathlib.Algebra.Ring.Int.Defs
import Mathlib.Data.List.TakeWhile

/-! What programs do with `std::string`: take a suffix, read a number off its
front, and read it line by line through a stream. A character stands for one
byte, whatever letters the bytes of a text spell. -/

/-- The exceptions of the string functions. -/
inductive StdException
  | invalidArgument
  | outOfRange
deriving DecidableEq, Repr

namespace StringView

theorem find_eq_zero {text pattern : String} : find text pattern = some 0 ↔ pattern.toList <+: text.toList := by
  rw [find, List.range_succ_eq_map, List.find?_cons, List.drop_zero, ← List.isPrefixOf_iff_prefix]
  cases starts : pattern.toList.isPrefixOf text.toList with
  | true => simp
  | false => simp

/-- Two patterns of which neither starts the other do not both start a text. -/
theorem find_exclusive {text first second : String} (found : find text first = some 0)
    (apart : ¬ first.toList <+: second.toList) (apart' : ¬ second.toList <+: first.toList) :
    find text second ≠ some 0 := by
  rw [find_eq_zero] at found
  rw [Ne, find_eq_zero]
  intro found'
  rcases Nat.le_total first.toList.length second.toList.length with shorter | longer
  · exact apart (List.prefix_of_prefix_length_le found found' shorter)
  · exact apart' (List.prefix_of_prefix_length_le found' found longer)

end StringView

namespace StdString

/-- `substr(pos)`, which counts bytes. -/
def substr (text : String) (pos : Nat) : Except StdException String :=
  if pos ≤ text.toList.length then .ok (StringView.substr text pos) else .error .outOfRange

/-- `isspace` in the locale of C. -/
def isSpace (c : Char) : Bool := c = ' ' || 9 ≤ c.toNat && c.toNat ≤ 13

/-- The number of the digits at the front of a text. -/
def leadingNumber (text : List Char) : Option Nat :=
  let digits := text.takeWhile Char.isDigit
  if digits = [] then none else some (Nat.ofDigitChars 10 digits 0)

def signedNumber : List Char → Option Int
  | '-' :: rest => (leadingNumber rest).map fun n => - (n : Int)
  | '+' :: rest => (leadingNumber rest).map (↑)
  | rest => (leadingNumber rest).map (↑)

/-- `std::stoi` in base ten: blanks, a sign, and the digits that follow; what
stands behind them is left alone. An `int` has 32 bits. -/
def stoi (text : String) : Except StdException Int :=
  match signedNumber (text.toList.dropWhile isSpace) with
  | none => .error .invalidArgument
  | some n => if - 2 ^ 31 ≤ n ∧ n < 2 ^ 31 then .ok n else .error .outOfRange

/-- `std::stoll`: the same for a `long long`, of 64 bits. -/
def stoll (text : String) : Except StdException Int :=
  match signedNumber (text.toList.dropWhile isSpace) with
  | none => .error .invalidArgument
  | some n => if - 2 ^ 63 ≤ n ∧ n < 2 ^ 63 then .ok n else .error .outOfRange

/-- `std::getline`: what stands before the next delimiter, and what is left
behind it. It fails where there is nothing left to extract. -/
def getline (delimiter : Char) : List Char → Option (List Char × List Char)
  | [] => none
  | text => some (text.takeWhile (· ≠ delimiter), (text.dropWhile (· ≠ delimiter)).tail)

/-- The loop `while (std::getline(ss, line, delimiter))` for at most `fuel` lines. -/
def readLines (delimiter : Char) : Nat → List Char → List String
  | 0, _ => []
  | fuel + 1, text =>
    match getline delimiter text with
    | none => []
    | some (line, rest) => String.ofList line :: readLines delimiter fuel rest

/-- All lines of a text. Each has at least one character, its delimiter counted. -/
def getlines (delimiter : Char) (text : String) : List String :=
  readLines delimiter text.toList.length text.toList

/-- A list without one empty text at its end. -/
def dropTrailingEmpty (segments : List String) : List String :=
  if segments.getLast? = some "" then segments.dropLast else segments

theorem dropTrailingEmpty_cons (first : String) {rest : List String} (more : rest ≠ []) :
    dropTrailingEmpty (first :: rest) = first :: dropTrailingEmpty rest := by
  obtain ⟨second, others, rfl⟩ := List.exists_cons_of_ne_nil more
  simp only [dropTrailingEmpty, List.getLast?_cons_cons, List.dropLast_cons_cons]
  split <;> rfl

theorem dropTrailingEmpty_of_ne {segments : List String} (full : ∀ segment ∈ segments, segment ≠ "") :
    dropTrailingEmpty segments = segments := by
  rw [dropTrailingEmpty, if_neg]
  intro last
  exact full "" (List.mem_of_getLast? last) rfl

/-- What `getline` takes off a text: everything, or all before its first delimiter. -/
theorem getline_cases (delimiter : Char) {text : List Char} (more : text ≠ []) :
    delimiter ∉ text ∧ getline delimiter text = some (text, []) ∨
      ∃ line rest, delimiter ∉ line ∧ text = line ++ delimiter :: rest ∧
        getline delimiter text = some (line, rest) := by
  have taken : getline delimiter text =
      some (text.takeWhile (· ≠ delimiter), (text.dropWhile (· ≠ delimiter)).tail) := by
    obtain ⟨c, rest, rfl⟩ := List.exists_cons_of_ne_nil more
    rfl
  have differs : ∀ {line : List Char}, delimiter ∉ line → ∀ c ∈ line, decide (c ≠ delimiter) = true := by
    intro line absent c member
    rw [decide_eq_true_eq]
    rintro rfl
    exact absent member
  rw [taken]
  by_cases member : delimiter ∈ text
  · obtain ⟨line, rest, rfl, absent⟩ := List.eq_append_cons_of_mem member
    refine Or.inr ⟨line, rest, absent, rfl, ?_⟩
    rw [List.takeWhile_append_of_pos (differs absent), List.dropWhile_append_of_pos (differs absent)]
    simp
  · refine Or.inl ⟨member, ?_⟩
    rw [List.takeWhile_eq_self_iff.mpr (differs member), List.dropWhile_eq_nil_iff.mpr (differs member),
      List.tail_nil]

/-- Reading line by line is splitting at the delimiters, but for an empty segment at the end. -/
theorem readLines_eq (delimiter : Char) {fuel : Nat} {text : List Char} (enough : text.length ≤ fuel) :
    readLines delimiter fuel text = dropTrailingEmpty ((text.splitOn delimiter).map String.ofList) := by
  induction fuel generalizing text with
  | zero =>
    rw [List.length_eq_zero_iff.mp (Nat.le_zero.mp enough)]
    rfl
  | succ fuel ih =>
    by_cases more : text = []
    · subst more
      rfl
    · rcases getline_cases delimiter more with ⟨absent, read⟩ | ⟨line, rest, absent, rfl, read⟩
      · have last : readLines delimiter fuel [] = [] := by
          cases fuel <;> rfl
        have full : String.ofList text ≠ "" := by
          rwa [Ne, ← String.toList_inj, String.toList_ofList]
        rw [readLines, read, List.splitOn_eq_singleton absent]
        simp only [last, List.map_cons, List.map_nil]
        exact (dropTrailingEmpty_of_ne (by simpa using full)).symm
      · have shorter : rest.length ≤ fuel := by
          rw [List.length_append, List.length_cons] at enough
          omega
        rw [readLines, read, List.splitOn_append_cons_self_of_not_mem absent, List.map_cons, dropTrailingEmpty_cons]
        · simp only [ih shorter]
        · rw [Ne, List.map_eq_nil_iff]
          exact List.splitOn_ne_nil delimiter rest

theorem getlines_eq (delimiter : Char) (text : String) :
    getlines delimiter text = dropTrailingEmpty ((text.toList.splitOn delimiter).map String.ofList) :=
  readLines_eq delimiter le_rfl

/-- Joining with the delimiter and reading line by line are inverse to each
other on texts that are not empty and free of it. -/
theorem getlines_intercalate {delimiter : Char} {names : List String}
    (proper : ∀ name ∈ names, name ≠ "" ∧ delimiter ∉ name.toList) :
    getlines delimiter ((String.singleton delimiter).intercalate names) = names := by
  by_cases none : names = []
  · subst none
    rfl
  · rw [getlines_eq, String.toList_intercalate, String.toList_singleton, List.splitOn_intercalate]
    · rw [List.map_map]
      have same : names.map (String.ofList ∘ String.toList) = names := by
        simp only [Function.comp_def, String.ofList_toList, List.map_id']
      rw [same]
      exact dropTrailingEmpty_of_ne fun name member => (proper name member).1
    · intro letters member
      obtain ⟨name, listed, rfl⟩ := List.mem_map.mp member
      exact (proper name listed).2
    · rwa [Ne, List.map_eq_nil_iff]

theorem leadingNumber_digits {digits : List Char} (some_ : digits ≠ []) (all : ∀ c ∈ digits, c.isDigit = true) :
    leadingNumber digits = some (Nat.ofDigitChars 10 digits 0) := by
  rw [leadingNumber, List.takeWhile_eq_self_iff.mpr all, if_neg some_]

/-- A numeral of digits alone. -/
theorem stoi_digits {digits : List Char} (some_ : digits ≠ []) (all : ∀ c ∈ digits, c.isDigit = true) :
    stoi (String.ofList digits) =
      if Nat.ofDigitChars 10 digits 0 < 2 ^ 31 then .ok (Nat.ofDigitChars 10 digits 0 : Nat)
      else .error .outOfRange := by
  obtain ⟨first, rest, rfl⟩ := List.exists_cons_of_ne_nil some_
  obtain ⟨low, high⟩ := Char.isDigit_iff_toNat.mp (all first (List.mem_cons_self ..))
  have other : ∀ c : Char, c.toNat < '0'.toNat → first ≠ c := by
    rintro c below rfl
    exact absurd low (not_le.mpr below)
  have visible : isSpace first = false := by
    have blank := other ' ' (by decide)
    simp only [isSpace, blank, decide_false, Bool.false_or, Bool.and_eq_false_iff, decide_eq_false_iff_not]
    exact Or.inr (not_le.mpr ((by decide : 13 < '0'.toNat).trans_le low))
  have number : signedNumber (first :: rest) = some (Nat.ofDigitChars 10 (first :: rest) 0 : Int) := by
    unfold signedNumber
    split
    · rename_i same
      exact absurd (List.cons.inj same).1 (other '-' (by decide))
    · rename_i same
      exact absurd (List.cons.inj same).1 (other '+' (by decide))
    · rw [leadingNumber_digits some_ all]
      rfl
  rw [stoi, String.toList_ofList, List.dropWhile_cons_of_neg (by rw [visible]; exact Bool.false_ne_true), number]
  exact if_congr (by omega) rfl rfl

theorem isDigit_toDigits {n : Nat} {c : Char} (member : c ∈ Nat.toDigits 10 n) : c.isDigit = true :=
  Nat.isDigit_of_mem_toDigits (by decide) (by decide) member

/-- A positive number's decimal begins with a digit other than zero. -/
theorem toDigits_lead {n : Nat} (positive : 0 < n) :
    ∃ lead rest, Nat.toDigits 10 n = lead :: rest ∧ 0 < lead.toNat - '0'.toNat := by
  induction n using Nat.strongRecOn with
  | ind n ih =>
    by_cases small : n < 10
    · refine ⟨n.digitChar, [], Nat.toDigits_of_lt_base small, ?_⟩
      exact positive.trans_eq (Nat.toNat_digitChar_sub_48_of_lt_ten small).symm
    · obtain ⟨lead, rest, digits, nonzero⟩ := ih (n / 10) (by omega) (by omega)
      refine ⟨lead, rest ++ [Nat.digitChar (n % 10)], ?_, nonzero⟩
      rw [Nat.toDigits_of_base_le (by decide) (not_lt.mp small), digits, List.cons_append]

/-- Without its first digit a decimal is not read as the same number. -/
theorem stoi_tail_ne (n : Nat) : stoi (String.ofList (Nat.toDigits 10 n).tail) ≠ .ok (n : Int) := by
  rcases Nat.eq_zero_or_pos n with rfl | positive
  · rw [Nat.toDigits_zero]
    exact nofun
  · obtain ⟨lead, rest, digits, nonzero⟩ := toDigits_lead positive
    have value := Nat.ofDigitChars_ten_toDigits (n := n)
    rw [digits, Nat.ofDigitChars_cons, Nat.ofDigitChars_eq_ofDigitChars_zero] at value
    have more : 0 < 10 ^ rest.length * (10 * 0 + (lead.toNat - '0'.toNat)) :=
      Nat.mul_pos (Nat.pow_pos (by decide)) (by omega)
    rw [digits, List.tail_cons]
    by_cases some_ : rest = []
    · subst some_
      exact nofun
    · have all : ∀ c ∈ rest, c.isDigit = true := by
        intro c member
        refine isDigit_toDigits (n := n) ?_
        rw [digits]
        exact List.mem_cons_of_mem _ member
      rw [stoi_digits some_ all]
      split
      · intro same
        have equal := Int.ofNat_inj.mp (Except.ok.inj same)
        omega
      · exact nofun

end StdString
