import ConsolidatedBook.StdString

namespace ConsolidatedBook

/-- The counter of the loop over a line's characters: `'{'` up, `'}'` down. It is an
`int`, whose range is not left by fewer than `2 ^ 31` braces. -/
def braceDepth (depth : Int) (text : List Char) : Int :=
  text.foldl (fun depth c => if c = '\x7b' then depth + 1 else if c = '\x7d' then depth - 1 else depth) depth

/-- The loop of `ReadNextJsonObject` over the lines that are left in the stream. -/
def readLoop (started : Bool) (depth : Int) (json : String) : List String → Option String × List String
  | [] => (none, [])
  | line :: rest =>
    let opened := if started then some line else (StringView.find line "\x7b").map (StringView.substr line)
    match opened with
    | none => readLoop false depth json rest
    | some line =>
      if braceDepth depth line.toList = 0 then (some (json ++ line ++ "\n"), rest)
      else readLoop true (braceDepth depth line.toList) (json ++ line ++ "\n") rest

/-- `Utilities::ReadNextJsonObject`: what it returns, and the lines that it leaves. -/
def readNextJsonObject (lines : List String) : Option String × List String :=
  readLoop false 0 "" lines

/-- Calls in succession on one stream: what each returns. -/
def readJsonObjects (lines : List String) : Nat → List (Option String)
  | 0 => []
  | calls + 1 => (readNextJsonObject lines).1 :: readJsonObjects (readNextJsonObject lines).2 calls

/-- Lines with a newline after each. -/
def textOf : List String → String
  | [] => ""
  | line :: rest => line ++ "\n" ++ textOf rest

/-- The lines from the first brace on that opens one. -/
def fromBrace : List String → List String
  | [] => []
  | line :: rest =>
    match StringView.find line "\x7b" with
    | none => fromBrace rest
    | some pos => StringView.substr line pos :: rest

theorem braceDepth_append (depth : Int) (first second : List Char) :
    braceDepth depth (first ++ second) = braceDepth (braceDepth depth first) second :=
  List.foldl_append

theorem toList_textOf_cons (line : String) (rest : List String) :
    (textOf (line :: rest)).toList = line.toList ++ '\n' :: (textOf rest).toList := by
  rw [textOf, String.toList_append, String.toList_append, List.append_assoc]
  rfl

theorem braceDepth_textOf_cons (depth : Int) (line : String) (rest : List String) :
    braceDepth depth (textOf (line :: rest)).toList =
      braceDepth (braceDepth depth line.toList) (textOf rest).toList := by
  rw [toList_textOf_cons, braceDepth_append]
  rfl

theorem textOf_append (first second : List String) :
    textOf (first ++ second) = textOf first ++ textOf second := by
  induction first with
  | nil => rw [List.nil_append, textOf, String.empty_append]
  | cons line first ih =>
    rw [List.cons_append, textOf, textOf, ih, String.append_assoc, String.append_assoc, String.append_assoc]

/-- The lines end where the depth is zero at a line's end for the first time. -/
structure Settles (depth : Int) (taken : List String) : Prop where
  more : taken ≠ []
  zero : braceDepth depth (textOf taken).toList = 0
  first {earlier later} : taken = earlier ++ later → earlier ≠ [] → later ≠ [] →
    braceDepth depth (textOf earlier).toList ≠ 0

theorem settles_cons {depth : Int} {line : String} {rest : List String} :
    Settles depth (line :: rest) ↔ braceDepth depth line.toList = 0 ∧ rest = [] ∨
      braceDepth depth line.toList ≠ 0 ∧ Settles (braceDepth depth line.toList) rest := by
  have single : braceDepth depth (textOf [line]).toList = braceDepth depth line.toList := by
    rw [braceDepth_textOf_cons]
    rfl
  constructor
  · intro settles
    by_cases last : rest = []
    · subst last
      exact Or.inl ⟨single.symm.trans settles.zero, rfl⟩
    · have split : line :: rest = [line] ++ rest := List.singleton_append.symm
      have open_ := settles.first split (List.cons_ne_nil _ _) last
      rw [single] at open_
      refine Or.inr ⟨open_, last, ?_, ?_⟩
      · rw [← braceDepth_textOf_cons]
        exact settles.zero
      · intro earlier later split some_ more
        rw [← braceDepth_textOf_cons]
        exact settles.first (by rw [split]; rfl) (List.cons_ne_nil _ _) more
  · rintro (⟨zero, rfl⟩ | ⟨open_, settles⟩)
    · refine ⟨List.cons_ne_nil _ _, single.trans zero, ?_⟩
      intro earlier later split some_ more
      have length := congrArg List.length split
      have lengths := List.length_pos_iff.mpr some_
      have lengths' := List.length_pos_iff.mpr more
      simp only [List.length_singleton, List.length_append] at length
      omega
    · refine ⟨List.cons_ne_nil _ _, ?_, ?_⟩
      · rw [braceDepth_textOf_cons]
        exact settles.zero
      · intro earlier later split some_ more
        obtain ⟨first, others, rfl⟩ := List.exists_cons_of_ne_nil some_
        obtain ⟨rfl, rest⟩ := List.cons.inj split
        rw [braceDepth_textOf_cons]
        by_cases only : others = []
        · subst only
          exact open_
        · exact settles.first rest only more

/-- The loop skips what stands before the first brace, and starts there. -/
theorem readNextJsonObject_eq (lines : List String) :
    readNextJsonObject lines = readLoop true 0 "" (fromBrace lines) := by
  unfold readNextJsonObject
  induction lines with
  | nil => rfl
  | cons line rest ih =>
    rw [fromBrace, readLoop]
    cases found : StringView.find line "\x7b" with
    | none => exact ih
    | some pos => rfl

/-- Once started the loop takes lines until the depth is zero at the end of one. -/
theorem readLoop_settled {depth : Int} {taken : List String} (settles : Settles depth taken) (json : String)
    (rest : List String) : readLoop true depth json (taken ++ rest) = (some (json ++ textOf taken), rest) := by
  induction taken generalizing depth json with
  | nil => exact absurd rfl settles.more
  | cons line taken ih =>
    rw [List.cons_append, readLoop]
    simp only [if_true]
    rcases settles_cons.mp settles with ⟨zero, rfl⟩ | ⟨open_, later⟩
    · rw [if_pos zero, textOf, textOf, String.append_empty, String.append_assoc]
      rfl
    · rw [if_neg open_, ih later, textOf, ← String.append_assoc, ← String.append_assoc]

theorem settles_of_readLoop {depth : Int} {lines rest : List String} {json read : String}
    (returned : readLoop true depth json lines = (some read, rest)) :
    ∃ taken, Settles depth taken ∧ lines = taken ++ rest ∧ read = json ++ textOf taken := by
  induction lines generalizing depth json with
  | nil => cases returned
  | cons line lines ih =>
    rw [readLoop] at returned
    simp only [if_true] at returned
    by_cases zero : braceDepth depth line.toList = 0
    · rw [if_pos zero] at returned
      cases returned
      refine ⟨[line], settles_cons.mpr (Or.inl ⟨zero, rfl⟩), rfl, ?_⟩
      rw [textOf, textOf, String.append_empty, String.append_assoc]
    · rw [if_neg zero] at returned
      obtain ⟨taken, settles, rfl, rfl⟩ := ih returned
      refine ⟨line :: taken, settles_cons.mpr (Or.inr ⟨zero, settles⟩), rfl, ?_⟩
      rw [textOf, String.append_assoc, String.append_assoc, String.append_assoc]

end ConsolidatedBook
