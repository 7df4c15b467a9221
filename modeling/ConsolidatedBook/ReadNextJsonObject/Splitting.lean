import ConsolidatedBook.ReadNextJsonObject

namespace ConsolidatedBook

/-- Lines with no brace that opens. -/
def IsGap (lines : List String) : Prop :=
  ∀ line ∈ lines, '\x7b' ∉ line.toList

/-- An object over several lines: it begins with a brace, and its running count
of braces is positive at the end of every line but the last, and zero there. -/
structure IsObject (lines : List String) : Prop where
  opens : ∃ first rest, lines = first :: rest ∧ ['\x7b'] <+: first.toList
  positive {earlier later} : lines = earlier ++ later → earlier ≠ [] → later ≠ [] →
    0 < braceDepth 0 (textOf earlier).toList
  zero : braceDepth 0 (textOf lines).toList = 0

/-- Objects one after another, with gaps around them. -/
inductive Layout : List (List String) → List String → Prop
  | done {gap} : IsGap gap → Layout [] gap
  | next {gap object objects rest} : IsGap gap → IsObject object → Layout objects rest →
      Layout (object :: objects) (gap ++ (object ++ rest))

theorem find_brace_eq_none {line : String} (absent : '\x7b' ∉ line.toList) :
    StringView.find line "\x7b" = none := by
  unfold StringView.find
  rw [List.find?_eq_none]
  intro pos _ starts
  have opens : ['\x7b'] <+: line.toList.drop pos := List.isPrefixOf_iff_prefix.mp starts
  exact absent (List.mem_of_mem_drop (opens.subset (List.mem_singleton_self _)))

theorem fromBrace_gap {gap : List String} (isGap : IsGap gap) (rest : List String) :
    fromBrace (gap ++ rest) = fromBrace rest := by
  induction gap with
  | nil => rfl
  | cons line gap ih =>
    obtain ⟨absent, others⟩ := List.forall_mem_cons.mp isGap
    rw [List.cons_append, fromBrace, find_brace_eq_none absent]
    exact ih others

theorem IsObject.settles {object : List String} (isObject : IsObject object) : Settles 0 object := by
  obtain ⟨first, rest, rfl, _⟩ := isObject.opens
  refine ⟨List.cons_ne_nil _ _, isObject.zero, fun split some_ more => ?_⟩
  have positive := isObject.positive split some_ more
  omega

theorem IsObject.fromBrace {object : List String} (isObject : IsObject object) (rest : List String) :
    fromBrace (object ++ rest) = object ++ rest := by
  obtain ⟨first, others, rfl, opens⟩ := isObject.opens
  have found : StringView.find first "\x7b" = some 0 := StringView.find_eq_zero.mpr opens
  rw [List.cons_append, ConsolidatedBook.fromBrace, found]
  simp only [StringView.substr, List.drop_zero, String.ofList_toList]

/-- One call skips the gap, returns the object and stops behind it. -/
theorem readNextJsonObject_object {gap object : List String} (isGap : IsGap gap) (isObject : IsObject object)
    (rest : List String) : readNextJsonObject (gap ++ (object ++ rest)) = (some (textOf object), rest) := by
  rw [readNextJsonObject_eq, fromBrace_gap isGap, isObject.fromBrace, readLoop_settled isObject.settles,
    String.empty_append]

theorem readNextJsonObject_gap {gap : List String} (isGap : IsGap gap) : readNextJsonObject gap = (none, []) := by
  have nothing := fromBrace_gap isGap []
  rw [List.append_nil] at nothing
  rw [readNextJsonObject_eq, nothing]
  rfl

theorem Layout.readJsonObjects {objects : List (List String)} {lines : List String}
    (layout : Layout objects lines) :
    readJsonObjects lines (objects.length + 1) = objects.map (fun object => some (textOf object)) ++ [none] := by
  induction layout with
  | done isGap =>
    simp only [List.length_nil, ConsolidatedBook.readJsonObjects, readNextJsonObject_gap isGap]
    rfl
  | next isGap isObject _ ih =>
    rw [List.length_cons, ConsolidatedBook.readJsonObjects, readNextJsonObject_object isGap isObject, ih]
    rfl

/-- Lines that are written with a newline after each are read back as they are. -/
theorem getlines_textOf {lines : List String} (plain : ∀ line ∈ lines, '\n' ∉ line.toList) :
    StdString.getlines '\n' (textOf lines) = lines := by
  have split : (textOf lines).toList.splitOn '\n' = lines.map String.toList ++ [[]] := by
    induction lines with
    | nil => rfl
    | cons line rest ih =>
      obtain ⟨absent, others⟩ := List.forall_mem_cons.mp plain
      rw [toList_textOf_cons, List.splitOn_append_cons_self_of_not_mem absent, ih others, List.map_cons, List.cons_append]
  have same : lines.map (String.ofList ∘ String.toList) = lines := by
    simp only [Function.comp_def, String.ofList_toList, List.map_id']
  rw [StdString.getlines_eq, split, List.map_append, List.map_map, same]
  unfold StdString.dropTrailingEmpty
  rw [List.map_singleton, List.getLast?_concat, if_pos rfl, List.dropLast_concat]

/-- A stream of objects is read object by object, each with its own lines and a
newline after each, and then there is nothing left. -/
theorem readNextJsonObject_splits (objects : List (List String)) (content : String)
    (layout : Layout objects (StdString.getlines '\n' content)) :
    readJsonObjects (StdString.getlines '\n' content) (objects.length + 1) =
      objects.map (fun object => some (textOf object)) ++ [none] :=
  layout.readJsonObjects

theorem readNextJsonObject_splits_two :
    readJsonObjects (StdString.getlines '\n' (textOf ["", "\x7b\"i\":", "1\x7d", "\x7b\x7d"])) 3 =
      [some (textOf ["\x7b\"i\":", "1\x7d"]), some (textOf ["\x7b\x7d"]), none] := by
  have plain : ∀ line ∈ ["", "\x7b\"i\":", "1\x7d", "\x7b\x7d"], '\n' ∉ line.toList := by decide
  have gap : IsGap [""] := List.forall_mem_singleton.mpr (by decide)
  have first : IsObject ["\x7b\"i\":", "1\x7d"] := by
    refine ⟨⟨_, _, rfl, by decide⟩, ?_, by decide⟩
    intro earlier later split some_ more
    rcases List.append_eq_cons_iff.mp split.symm with ⟨none, _⟩ | ⟨others, rfl, rest⟩
    · exact absurd none some_
    · rcases List.append_eq_singleton_iff.mp rest.symm with ⟨rfl, _⟩ | ⟨_, none⟩
      · decide
      · exact absurd none more
  have second : IsObject ["\x7b\x7d"] := by
    refine ⟨⟨_, _, rfl, by decide⟩, ?_, by decide⟩
    intro earlier later split some_ more
    rcases List.append_eq_singleton_iff.mp split.symm with ⟨none, _⟩ | ⟨_, none⟩
    · exact absurd none some_
    · exact absurd none more
  refine readNextJsonObject_splits [["\x7b\"i\":", "1\x7d"], ["\x7b\x7d"]] _ ?_
  rw [getlines_textOf plain]
  exact .next gap first (.next (List.forall_mem_nil _) second (.done (List.forall_mem_nil _)))

end ConsolidatedBook
