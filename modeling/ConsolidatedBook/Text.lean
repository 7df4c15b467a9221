import Mathlib.Data.List.Basic
import Mathlib.Data.List.Infix
import Mathlib.Data.Rat.Defs
import Mathlib.Algebra.Group.Nat.Defs

/-! Strings as sequences of characters: where a pattern stands in them, and
the numbers that numerals stand for. A character stands for one byte of a
`std::string`, so that positions and lengths count bytes. -/

theorem Except.bind_eq_ok_iff {ε α β : Type} (res : Except ε α) (next : α → Except ε β) (b : β) :
    (res >>= next) = .ok b ↔ ∃ a, res = .ok a ∧ next a = .ok b := by
  cases res <;> simp [bind, Except.bind]

namespace StringView

/-- The first position at which the pattern stands. -/
def find (text pattern : String) : Option Nat :=
  (List.range (text.toList.length + 1)).find? fun pos => pattern.toList.isPrefixOf (text.toList.drop pos)

/-- The text from a position on. -/
def substr (text : String) (pos : Nat) : String :=
  String.ofList (text.toList.drop pos)

theorem find_append (pattern rest : String) : find (pattern ++ rest) pattern = some 0 := by
  unfold find
  rw [List.range_succ_eq_map, List.find?_cons_of_pos]
  simp only [String.toList_append, List.drop_zero, List.isPrefixOf_iff_prefix, List.prefix_append]

theorem substr_append (pattern rest : String) : substr (pattern ++ rest) pattern.length = rest := by
  unfold substr
  rw [String.toList_append, ← String.length_toList, List.drop_left, String.ofList_toList]

theorem find_eq_some_iff {text pattern : String} {pos : Nat} :
    find text pattern = some pos ↔ pattern.toList <+: text.toList.drop pos ∧ pos ≤ text.toList.length ∧
      ∀ earlier < pos, ¬ pattern.toList <+: text.toList.drop earlier := by
  unfold find
  rw [List.find?_range_eq_some, List.mem_range, Nat.lt_succ_iff, List.isPrefixOf_iff_prefix]
  simp only [Bool.not_eq_true', ← Bool.not_eq_true, List.isPrefixOf_iff_prefix]

/-- A pattern whose first character is not repeated in it cannot overlap with itself. -/
theorem not_prefix_drop {α : Type} {before pattern rest : List α} {lead : α} (starts : pattern = lead :: rest)
    (once : lead ∉ rest) (absent : ¬ pattern <:+: before) {earlier : Nat} (shorter : earlier < before.length) :
    ¬ pattern <+: (before ++ pattern).drop earlier := by
  rintro ⟨behind, split⟩
  rw [List.drop_append_of_le_length shorter.le] at split
  rcases List.append_eq_append_iff.mp split with ⟨left, inside, _⟩ | ⟨left, overlap, tail⟩
  · refine absent ((List.IsPrefix.isInfix ⟨left, inside.symm⟩).trans ?_)
    exact (List.drop_suffix earlier before).isInfix
  · have more : before.drop earlier ≠ [] := by
      rw [Ne, List.drop_eq_nil_iff]
      omega
    obtain ⟨first, others, dropped⟩ := List.exists_cons_of_ne_nil more
    rw [dropped, starts, List.cons_append] at overlap
    obtain ⟨rfl, others⟩ := List.cons.inj overlap
    cases left with
    | nil =>
      refine absent ?_
      rw [starts, others, List.append_nil, ← dropped]
      exact (List.drop_suffix earlier before).isInfix
    | cons again left =>
      rw [starts, List.cons_append] at tail
      obtain ⟨rfl, _⟩ := List.cons.inj tail
      exact once (others ▸ List.mem_append_right _ List.mem_cons_self)

/-- Behind a text that does not have it, the pattern stands where it was put. -/
theorem find_append_pattern {before pattern : String} {lead : Char} {rest : List Char}
    (starts : pattern.toList = lead :: rest) (once : lead ∉ rest)
    (absent : ¬ pattern.toList <:+: before.toList) :
    find (before ++ pattern) pattern = some before.toList.length := by
  rw [find_eq_some_iff, String.toList_append, List.drop_left, List.length_append]
  refine ⟨List.prefix_refl _, Nat.le_add_right _ _, fun earlier shorter => ?_⟩
  exact not_prefix_drop starts once absent shorter

end StringView

namespace Numeral

def digit (c : Char) : Option Nat :=
  if c.isDigit then some (c.toNat - '0'.toNat) else none

def digits (text : List Char) : Option Nat :=
  (text.mapM digit).map (·.foldl (10 * · + ·) 0)

/-- One digit or more. -/
def natural (text : List Char) : Option Nat :=
  if text = [] then none else digits text

/-- Digits, and a point before, behind or among them if there is one. -/
def fixed (text : List Char) : Option Rat :=
  match text.splitOn '.' with
  | [whole] => do return ((← natural whole) : Rat)
  | [whole, fraction] =>
    if whole = [] ∧ fraction = [] then none
    else do return ((← digits whole) : Rat) + ((← digits fraction) : Rat) / 10 ^ fraction.length
  | _ => none

def signed (text : List Char) : Option Rat :=
  match text with
  | '-' :: text => (fixed text).map (- ·)
  | text => fixed text

def exponent (text : List Char) : Option Int :=
  match text with
  | '-' :: text => (natural text).map fun n => - (n : Int)
  | '+' :: text => (natural text).map (↑)
  | text => (natural text).map (↑)

/-- The number that a decimal numeral stands for, an exponent at its end included. -/
def decimal (text : String) : Option Rat :=
  match text.toList.splitOnP fun c => c = 'e' ∨ c = 'E' with
  | [mantissa] => signed mantissa
  | [mantissa, power] => do return (← signed mantissa) * 10 ^ (← exponent power)
  | _ => none

def uint64 (text : String) : Option Nat :=
  (natural text.toList).filter (· < 2 ^ 64)

example : decimal "75019.99" = some (7501999 / 100) := by decide +kernel

example : decimal "-2.5e-3" = some (-1 / 400) := by decide +kernel

example : decimal ".5" = decimal "5.e-1" := by decide +kernel

example : uint64 "5858430818" = some 5858430818 := by decide

end Numeral
