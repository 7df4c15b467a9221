import Mathlib.Data.Finmap
import Mathlib.Data.List.Dedup

/-! A map that keeps one accumulator for each key of a stream, created at the
key's first item and updated at every later one. -/

namespace KeyedFold

variable {κ ι β γ : Type} [DecidableEq κ] (key : ι → κ) (create : ι → β) (update : β → ι → β)

def step (map : Finmap fun _ : κ => β) (item : ι) : Finmap fun _ : κ => β :=
  match map.lookup (key item) with
  | some value => map.insert (key item) (update value item)
  | none => map.insert (key item) (create item)

/-- The accumulator of one key alone, fed with its own items. -/
def single : List ι → Option β
  | [] => none
  | first :: rest => some (rest.foldl update (create first))

theorem lookup_step_self (map : Finmap fun _ : κ => β) (item : ι) :
    (step key create update map item).lookup (key item) =
      some (((map.lookup (key item)).map (update · item)).getD (create item)) := by
  unfold step
  split
  · rename_i value found
    rw [Finmap.lookup_insert, found]
    rfl
  · rename_i missing
    rw [Finmap.lookup_insert, missing]
    rfl

theorem lookup_step_of_ne (map : Finmap fun _ : κ => β) {item : ι} {k : κ} (other : k ≠ key item) :
    (step key create update map item).lookup k = map.lookup k := by
  unfold step
  split <;> rw [Finmap.lookup_insert_of_ne _ other]

theorem keys_step (map : Finmap fun _ : κ => β) (item : ι) :
    (step key create update map item).keys = insert (key item) map.keys := by
  ext k
  unfold step
  split <;> simp only [Finmap.mem_keys, Finmap.mem_insert, Finset.mem_insert]

theorem lookup_foldl_of_some {map : Finmap fun _ : κ => β} {k : κ} {value : β}
    (found : map.lookup k = some value) (items : List ι) :
    (items.foldl (step key create update) map).lookup k =
      some ((items.filter (key · = k)).foldl update value) := by
  induction items generalizing map value with
  | nil => exact found
  | cons item items ih =>
    rw [List.foldl_cons]
    by_cases here : key item = k
    · subst here
      have next := lookup_step_self key create update map item
      rw [found] at next
      rw [ih next, List.filter_cons_of_pos (by simp)]
      rfl
    · rw [ih ((lookup_step_of_ne key create update map (Ne.symm here)).trans found),
        List.filter_cons_of_neg (by simpa using here)]

/-- Interleaving with the items of other keys changes nothing for a key. -/
theorem lookup_foldl (items : List ι) (k : κ) :
    (items.foldl (step key create update) ∅).lookup k = single create update (items.filter (key · = k)) := by
  suffices general : ∀ map : Finmap fun _ : κ => β, map.lookup k = none →
      (items.foldl (step key create update) map).lookup k = single create update (items.filter (key · = k)) from
    general ∅ (Finmap.lookup_empty k)
  induction items with
  | nil => exact fun map missing => missing
  | cons item items ih =>
    intro map missing
    rw [List.foldl_cons]
    by_cases here : key item = k
    · subst here
      have next := lookup_step_self key create update map item
      rw [missing] at next
      rw [lookup_foldl_of_some key create update next, List.filter_cons_of_pos (by simp)]
      rfl
    · rw [ih _ ((lookup_step_of_ne key create update map (Ne.symm here)).trans missing),
        List.filter_cons_of_neg (by simpa using here)]

theorem keys_foldl (items : List ι) :
    (items.foldl (step key create update) ∅).keys = (items.map key).toFinset := by
  suffices general : ∀ map : Finmap fun _ : κ => β,
      (items.foldl (step key create update) map).keys = map.keys ∪ (items.map key).toFinset by
    rw [general, Finmap.keys_empty, Finset.empty_union]
  induction items with
  | nil => simp
  | cons item items ih =>
    intro map
    rw [List.foldl_cons, ih, keys_step, List.map_cons, List.toFinset_cons, Finset.insert_union,
      Finset.union_insert]

/-- The entries of a map are its keys with what is found there. -/
theorem values_eq (map : Finmap fun _ : κ => β) :
    (map.entries.map Sigma.snd).map some = map.keys.val.map map.lookup := by
  have entries : map.entries.map (fun entry => some entry.2) =
      map.entries.map fun entry => map.lookup entry.1 :=
    Multiset.map_congr rfl fun entry member => (Finmap.mem_lookup_iff.mpr member).symm
  rw [Multiset.map_map]
  exact entries.trans (Multiset.map_map map.lookup Sigma.fst map.entries).symm

/-- One value for each distinct key of the stream, made of its own items. -/
theorem values_foldl [Inhabited β] (items : List ι) :
    (items.foldl (step key create update) ∅).entries.map Sigma.snd =
      ((items.map key).dedup.map fun k => (single create update (items.filter (key · = k))).getD default :
        Multiset β) := by
  have values := values_eq (items.foldl (step key create update) ∅)
  rw [keys_foldl, List.toFinset_val, Multiset.map_coe] at values
  have unwrapped := congrArg (Multiset.map (·.getD default)) values
  rw [Multiset.map_map, Multiset.map_map, Multiset.map_coe, List.map_map] at unwrapped
  simpa only [Function.comp_def, lookup_foldl, Option.getD_some, Sigma.eta] using unwrapped

end KeyedFold
