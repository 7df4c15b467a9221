import ConsolidatedBook.KeyedFold

/-! Accumulators that can be merged: a stream may be cut into segments, each
with a map of its own, and the maps put together afterwards. -/

namespace KeyedFold

variable {κ ι β : Type} {create : ι → β} {update : β → ι → β} {merge : β → β → β} {Inv : β → Prop}

/-- An update is a merge with a fresh accumulator, wherever the accumulator
meets the invariant that creation and updates give it. -/
structure Merges (create : ι → β) (update : β → ι → β) (merge : β → β → β) (Inv : β → Prop) : Prop where
  assoc (a b c : β) : merge (merge a b) c = merge a (merge b c)
  created (item : ι) : Inv (create item)
  updated {value : β} (item : ι) : Inv value → Inv (update value item)
  update_eq {value : β} (item : ι) : Inv value → update value item = merge value (create item)

theorem Merges.foldl_inv (merges : Merges create update merge Inv) {value : β} (inv : Inv value)
    (items : List ι) : Inv (items.foldl update value) := by
  induction items generalizing value with
  | nil => exact inv
  | cons item items ih => exact ih (merges.updated item inv)

theorem Merges.foldl_eq (merges : Merges create update merge Inv) {value : β} (inv : Inv value)
    (first : ι) (rest : List ι) :
    (first :: rest).foldl update value = merge value (rest.foldl update (create first)) := by
  induction rest using List.reverseRecOn with
  | nil => exact merges.update_eq first inv
  | append_singleton rest last ih =>
    have before := merges.foldl_inv inv (first :: rest)
    have own := merges.foldl_inv (merges.created first) rest
    calc (first :: (rest ++ [last])).foldl update value
        = update ((first :: rest).foldl update value) last := by
          rw [← List.cons_append, List.foldl_append, List.foldl_cons, List.foldl_nil]
      _ = merge (merge value (rest.foldl update (create first))) (create last) := by
          rw [merges.update_eq last before, ih]
      _ = merge value (update (rest.foldl update (create first)) last) := by
          rw [merges.assoc, merges.update_eq last own]
      _ = merge value ((rest ++ [last]).foldl update (create first)) := by
          rw [List.foldl_append, List.foldl_cons, List.foldl_nil]

theorem Merges.single_append (merges : Merges create update merge Inv) (earlier later : List ι) :
    single create update (earlier ++ later) =
      Option.merge merge (single create update earlier) (single create update later) := by
  cases earlier with
  | nil => cases later <;> rfl
  | cons first rest =>
    cases later with
    | nil => simp only [List.append_nil, single, Option.merge_none_right]
    | cons next others =>
      have inv := merges.foldl_inv (merges.created first) rest
      simp only [single, List.cons_append, List.foldl_append, merges.foldl_eq inv, Option.merge_some_some]

/-- Any number of segments, merged in their order, give what the whole stream gives. -/
theorem Merges.single_flatten (merges : Merges create update merge Inv) (segments : List (List ι)) :
    single create update segments.flatten =
      segments.foldl (fun merged segment => Option.merge merge merged (single create update segment)) none := by
  suffices general : ∀ done : List ι, single create update (done ++ segments.flatten) =
      segments.foldl (fun merged segment => Option.merge merge merged (single create update segment))
        (single create update done) from
    general []
  induction segments with
  | nil => exact fun done => by rw [List.flatten_nil, List.append_nil, List.foldl_nil]
  | cons segment segments ih =>
    intro done
    rw [List.flatten_cons, ← List.append_assoc, ih, merges.single_append, List.foldl_cons]

variable [DecidableEq κ] (key : ι → κ)

/-- A map over the whole stream holds, for each key, what the maps over the segments merge to. -/
theorem Merges.lookup_flatten (merges : Merges create update merge Inv) (segments : List (List ι)) (k : κ) :
    (segments.flatten.foldl (step key create update) ∅).lookup k =
      segments.foldl (fun merged segment =>
        Option.merge merge merged ((segment.foldl (step key create update) ∅).lookup k)) none := by
  have each : ∀ segment : List ι, (segment.foldl (step key create update) ∅).lookup k =
      single create update (segment.filter (key · = k)) := fun segment =>
    lookup_foldl key create update segment k
  simp only [each]
  rw [List.filter_flatten, merges.single_flatten, List.foldl_map]

end KeyedFold
