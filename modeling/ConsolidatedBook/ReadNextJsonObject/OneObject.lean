import ConsolidatedBook.ReadNextJsonObject

namespace ConsolidatedBook

/-- Inside of a brace: behind it the depth never falls below one, and ends there. -/
structure Enclosed (inner : List Char) : Prop where
  positive {part} : part <+: inner → 0 < braceDepth 1 part
  even : braceDepth 1 inner = 1

def NoBrace (text : List Char) : Prop :=
  ∀ c ∈ text, c ≠ '\x7b' ∧ c ≠ '\x7d'

/-- The text begins with a brace, and has none behind the one that matches it. -/
def OneObject (text : List Char) : Prop :=
  ∃ inner behind, text = '\x7b' :: (inner ++ '\x7d' :: behind) ∧ Enclosed inner ∧ NoBrace behind

/-- The brace that matches the first has no other brace behind it on its line. -/
def MatchEndsLine (lines : List String) : Prop :=
  ∃ earlier head tail later inner, lines = earlier ++ String.ofList (head ++ '\x7d' :: tail) :: later ∧
    (textOf earlier).toList ++ head = '\x7b' :: inner ∧ Enclosed inner ∧ NoBrace tail

/-- At the end of some line all braces are closed. -/
def SomeLineEnds (lines : List String) : Prop :=
  ∃ taken rest, lines = taken ++ rest ∧ taken ≠ [] ∧ braceDepth 0 (textOf taken).toList = 0

theorem NoBrace.braceDepth {text : List Char} (noBrace : NoBrace text) (depth : Int) :
    braceDepth depth text = depth := by
  induction text generalizing depth with
  | nil => rfl
  | cons c text ih =>
    obtain ⟨⟨opens, closes⟩, others⟩ := List.forall_mem_cons.mp noBrace
    have step : ConsolidatedBook.braceDepth depth (c :: text) = ConsolidatedBook.braceDepth depth text := by
      simp only [ConsolidatedBook.braceDepth, List.foldl_cons, if_neg opens, if_neg closes]
    rw [step]
    exact ih others depth

/-- A character of the text stands in one of the lines, unless it is a newline. -/
theorem textOf_split {lines : List String} {before behind : List Char} {c : Char} (visible : c ≠ '\n')
    (split : (textOf lines).toList = before ++ c :: behind) :
    ∃ earlier head tail later, lines = earlier ++ String.ofList (head ++ c :: tail) :: later ∧
      before = (textOf earlier).toList ++ head ∧ behind = tail ++ '\n' :: (textOf later).toList := by
  induction lines generalizing before with
  | nil => exact absurd split.symm (List.append_ne_nil_of_right_ne_nil _ (List.cons_ne_nil _ _))
  | cons line rest ih =>
    rw [toList_textOf_cons] at split
    rcases List.append_eq_append_iff.mp split with ⟨between, rfl, newline⟩ | ⟨tail, whole, follows⟩
    · cases between with
      | nil => exact absurd (List.cons.inj newline).1.symm visible
      | cons first between =>
        obtain ⟨rfl, later⟩ := List.cons.inj newline
        obtain ⟨earlier, head, tail, after, rfl, rfl, rfl⟩ := ih later
        refine ⟨line :: earlier, head, tail, after, rfl, ?_, rfl⟩
        rw [toList_textOf_cons, List.append_assoc, List.cons_append]
    · cases tail with
      | nil => exact absurd (List.cons.inj follows).1 visible
      | cons first tail =>
        obtain ⟨rfl, rfl⟩ := List.cons.inj follows
        refine ⟨[], before, tail, rest, ?_, rfl, rfl⟩
        rw [← whole, String.ofList_toList]
        rfl

/-- Where some line ends with all braces closed, there is a first one. -/
theorem exists_settles {depth : Int} {taken : List String} (some_ : taken ≠ [])
    (zero : braceDepth depth (textOf taken).toList = 0) :
    ∃ first rest, taken = first ++ rest ∧ Settles depth first := by
  induction taken generalizing depth with
  | nil => exact absurd rfl some_
  | cons line taken ih =>
    rw [braceDepth_textOf_cons] at zero
    by_cases now : braceDepth depth line.toList = 0
    · exact ⟨[line], taken, rfl, settles_cons.mpr (Or.inl ⟨now, rfl⟩)⟩
    · have more : taken ≠ [] := by
        rintro rfl
        exact now zero
      obtain ⟨first, rest, rfl, settles⟩ := ih more zero
      exact ⟨line :: first, rest, rfl, settles_cons.mpr (Or.inr ⟨now, settles⟩)⟩

theorem Settles.unique {depth : Int} {first second rest rest' : List String} (settles : Settles depth first)
    (settles' : Settles depth second) (same : first ++ rest = second ++ rest') : first = second := by
  rcases List.append_eq_append_iff.mp same with ⟨between, rfl, _⟩ | ⟨between, rfl, _⟩
  · by_cases none : between = []
    · rw [none, List.append_nil]
    · exact absurd settles.zero (settles'.first rfl settles.more none)
  · by_cases none : between = []
    · rw [none, List.append_nil]
    · exact absurd settles'.zero (settles.first rfl settles'.more none)

theorem textOf_match {earlier : List String} {head tail inner : List Char}
    (opens : (textOf earlier).toList ++ head = '\x7b' :: inner) :
    (textOf (earlier ++ [String.ofList (head ++ '\x7d' :: tail)])).toList =
      '\x7b' :: (inner ++ '\x7d' :: (tail ++ ['\n'])) := by
  rw [textOf_append, textOf, textOf, String.append_empty, String.toList_append, String.toList_append,
    String.toList_ofList, ← List.cons_append, ← opens]
  simp only [List.append_assoc, List.cons_append]
  rfl

theorem NoBrace.concat_newline {text : List Char} (noBrace : NoBrace text) : NoBrace (text ++ ['\n']) := by
  intro c member
  rcases List.mem_append.mp member with inside | newline
  · exact noBrace c inside
  · rw [List.mem_singleton.mp newline]
    decide

/-- The line with the matching brace is the first that ends with all braces closed. -/
theorem settles_of_match {earlier : List String} {head tail inner : List Char}
    (opens : (textOf earlier).toList ++ head = '\x7b' :: inner) (enclosed : Enclosed inner)
    (noBrace : NoBrace tail) : Settles 0 (earlier ++ [String.ofList (head ++ '\x7d' :: tail)]) := by
  refine ⟨List.append_ne_nil_of_right_ne_nil _ (List.cons_ne_nil _ _), ?_, ?_⟩
  · have opened : braceDepth 0 ('\x7b' :: (inner ++ '\x7d' :: (tail ++ ['\n']))) =
        braceDepth 1 (inner ++ '\x7d' :: (tail ++ ['\n'])) := rfl
    have closed : braceDepth 1 ('\x7d' :: (tail ++ ['\n'])) = braceDepth 0 (tail ++ ['\n']) := rfl
    rw [textOf_match opens, opened, braceDepth_append, enclosed.even, closed, noBrace.concat_newline.braceDepth]
  · intro part later split some_ more
    rcases List.prefix_concat_iff.mp ⟨later, split.symm⟩ with whole | ⟨between, rfl⟩
    · rw [whole] at split
      exact absurd (List.self_eq_append_right.mp split) more
    · obtain ⟨line, others, rfl⟩ := List.exists_cons_of_ne_nil some_
      have nonempty : (textOf (line :: others)).toList ≠ [] := by
        rw [toList_textOf_cons]
        exact List.append_ne_nil_of_right_ne_nil _ (List.cons_ne_nil _ _)
      obtain ⟨first, characters, text⟩ := List.exists_cons_of_ne_nil nonempty
      rw [textOf_append, String.toList_append, List.append_assoc, text, List.cons_append] at opens
      obtain ⟨rfl, inside⟩ := List.cons.inj opens
      have positive := enclosed.positive ⟨_, inside⟩
      have opened : braceDepth 0 ('\x7b' :: characters) = braceDepth 1 characters := rfl
      rw [text, opened]
      omega

/-- Depth is looked at where lines end, and braces are counted inside of them: a
text that is returned is one object exactly if the line with the matching brace ends there. -/
theorem readNextJsonObject_oneObject_iff (lines : List String) :
    (∀ json rest, readNextJsonObject lines = (some json, rest) → OneObject json.toList) ↔
      (SomeLineEnds (fromBrace lines) → MatchEndsLine (fromBrace lines)) := by
  constructor
  · rintro limited ⟨taken, rest, split, some_, zero⟩
    obtain ⟨first, others, rfl, settles⟩ := exists_settles some_ zero
    have returned : readNextJsonObject lines = (some (textOf first), others ++ rest) := by
      rw [readNextJsonObject_eq, split, List.append_assoc, readLoop_settled settles, String.empty_append]
    obtain ⟨inner, behind, text, enclosed, noBrace⟩ := limited _ _ returned
    rw [← List.cons_append] at text
    obtain ⟨earlier, head, tail, later, rfl, opens, rfl⟩ := textOf_split (by decide) text
    refine ⟨earlier, head, tail, later ++ (others ++ rest), inner, ?_, opens.symm, enclosed, ?_⟩
    · rw [split, List.append_assoc, List.append_assoc, List.cons_append]
    · exact fun c member => noBrace c (List.mem_append_left _ member)
  · intro ends json rest returned
    rw [readNextJsonObject_eq] at returned
    obtain ⟨taken, settles, split, rfl⟩ := settles_of_readLoop returned
    obtain ⟨earlier, head, tail, later, inner, same, opens, enclosed, noBrace⟩ :=
      ends ⟨taken, rest, split, settles.more, settles.zero⟩
    have matched := settles_of_match opens enclosed noBrace
    rw [split, List.append_cons] at same
    rw [settles.unique matched same, String.empty_append]
    exact ⟨inner, tail ++ ['\n'], textOf_match opens, enclosed, noBrace.concat_newline⟩

/-- Two objects on one line are returned as one text. -/
theorem readNextJsonObject_returns_two :
    readNextJsonObject ["\x7b\x7d\x7b\x7d"] = (some "\x7b\x7d\x7b\x7d\n", []) ∧
      ¬ ∀ json rest, readNextJsonObject ["\x7b\x7d\x7b\x7d"] = (some json, rest) → OneObject json.toList := by
  have returned : readNextJsonObject ["\x7b\x7d\x7b\x7d"] = (some "\x7b\x7d\x7b\x7d\n", []) := by
    decide
  refine ⟨returned, fun limited => ?_⟩
  obtain ⟨inner, behind, text, enclosed, noBrace⟩ := limited _ _ returned
  have characters : "\x7b\x7d\x7b\x7d\n".toList = ['\x7b', '\x7d', '\x7b', '\x7d', '\n'] := by decide
  have same := (List.cons.inj (characters.symm.trans text)).2
  cases inner with
  | nil =>
    obtain ⟨_, rfl⟩ := List.cons.inj same
    exact (noBrace '\x7b' List.mem_cons_self).1 rfl
  | cons c inner =>
    obtain ⟨rfl, _⟩ := List.cons.inj same
    have positive : 0 < braceDepth 1 ['\x7d'] := enclosed.positive ⟨_, List.singleton_append⟩
    exact absurd positive (by decide)

end ConsolidatedBook
