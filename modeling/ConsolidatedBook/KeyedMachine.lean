import Mathlib.Data.Finmap

/-! A bank that keeps one machine for each key of a stream, built at the key's
first item. A machine answers each item with a list of outputs. -/

namespace KeyedMachine

variable {κ ι σ ο : Type}

/-- Feed a machine a list of items: its last state, and all of its outputs. -/
def feed (step : σ → ι → σ × List ο) (state : σ) : List ι → σ × List ο
  | [] => (state, [])
  | item :: items =>
    let (next, outputs) := step state item
    let (last, later) := feed step next items
    (last, outputs ++ later)

theorem feed_append (step : σ → ι → σ × List ο) (state : σ) (items more : List ι) :
    feed step state (items ++ more) = ((feed step (feed step state items).1 more).1,
      (feed step state items).2 ++ (feed step (feed step state items).1 more).2) := by
  induction items generalizing state with
  | nil => rfl
  | cons item items ih => simp only [List.cons_append, feed, ih, List.append_assoc]

variable [DecidableEq κ] (key : ι → κ) (build : κ → σ) (step : σ → ι → σ × List ο)

/-- The machine of a key, built now if the bank has none. -/
def machineOf (bank : Finmap fun _ : κ => σ) (k : κ) : σ := (bank.lookup k).getD (build k)

/-- Hand an item to the machine of its key. Each output carries the key. -/
def route (bank : Finmap fun _ : κ => σ) (item : ι) : (Finmap fun _ : κ => σ) × List (κ × ο) :=
  let (next, outputs) := step (machineOf build bank (key item)) item
  (bank.insert (key item) next, outputs.map (key item, ·))

/-- What the machine of one key has put out. -/
def outputsOf (k : κ) (outputs : List (κ × ο)) : List ο := (outputs.filter (·.1 = k)).map Prod.snd

theorem outputsOf_append (k : κ) (outputs more : List (κ × ο)) :
    outputsOf k (outputs ++ more) = outputsOf k outputs ++ outputsOf k more := by
  simp only [outputsOf, List.filter_append, List.map_append]

theorem outputsOf_self (k : κ) (outputs : List ο) : outputsOf k (outputs.map (k, ·)) = outputs := by
  rw [outputsOf, List.filter_eq_self.mpr (by simp), List.map_map]
  exact List.map_id outputs

theorem outputsOf_of_ne {k other : κ} (different : other ≠ k) (outputs : List ο) :
    outputsOf k (outputs.map (other, ·)) = [] := by
  rw [outputsOf, List.filter_eq_nil_iff.mpr (by simp [different]), List.map_nil]

theorem machineOf_insert (bank : Finmap fun _ : κ => σ) (k : κ) (state : σ) :
    machineOf build (bank.insert k state) k = state := by
  rw [machineOf, Finmap.lookup_insert, Option.getD_some]

theorem machineOf_insert_of_ne (bank : Finmap fun _ : κ => σ) {k other : κ} (different : k ≠ other) (state : σ) :
    machineOf build (bank.insert other state) k = machineOf build bank k := by
  rw [machineOf, Finmap.lookup_insert_of_ne _ different, machineOf]

/-- The items of other keys, whatever they are and wherever they come in
between, change nothing for a key: not its machine, and not its outputs. -/
theorem feed_route (bank : Finmap fun _ : κ => σ) (items : List ι) (k : κ) :
    machineOf build (feed (route key build step) bank items).1 k =
        (feed step (machineOf build bank k) (items.filter (key · = k))).1 ∧
      outputsOf k (feed (route key build step) bank items).2 =
        (feed step (machineOf build bank k) (items.filter (key · = k))).2 := by
  induction items generalizing bank with
  | nil => exact ⟨rfl, rfl⟩
  | cons item items ih =>
    have rest := ih (route key build step bank item).1
    simp only [feed, outputsOf_append]
    by_cases here : key item = k
    · subst here
      rw [List.filter_cons_of_pos (by simp)]
      simp only [route, machineOf_insert] at rest ⊢
      rw [outputsOf_self]
      exact ⟨rest.1, congrArg _ rest.2⟩
    · rw [List.filter_cons_of_neg (by simpa using here)]
      simp only [route, machineOf_insert_of_ne build bank (Ne.symm here)] at rest ⊢
      rw [outputsOf_of_ne here, List.nil_append]
      exact rest

/-- The bank has a machine for the keys that it had one for and for those of the items. -/
theorem mem_feed_route (bank : Finmap fun _ : κ => σ) (items : List ι) (k : κ) :
    k ∈ (feed (route key build step) bank items).1 ↔ k ∈ bank ∨ items.filter (key · = k) ≠ [] := by
  induction items generalizing bank with
  | nil => simp [feed]
  | cons item items ih =>
    simp only [feed, ih, route, Finmap.mem_insert]
    by_cases here : key item = k
    · simp [here]
    · simp [here, Ne.symm here]

theorem lookup_feed_route (bank : Finmap fun _ : κ => σ) (items : List ι) (k : κ) :
    (feed (route key build step) bank items).1.lookup k =
      if k ∈ bank ∨ items.filter (key · = k) ≠ [] then
        some (feed step (machineOf build bank k) (items.filter (key · = k))).1
      else none := by
  rw [← (feed_route key build step bank items k).1]
  split
  · rename_i present
    rw [← mem_feed_route key build step, Finmap.mem_iff] at present
    obtain ⟨state, found⟩ := present
    rw [machineOf, found, Option.getD_some]
  · rename_i absent
    rw [← mem_feed_route key build step] at absent
    exact Finmap.lookup_eq_none.mpr absent

/-- A round over distinct keys. -/
theorem outputsOf_flatMap {keys : List κ} (distinct : keys.Nodup) (outputs : κ → List ο) (k : κ) :
    outputsOf k (keys.flatMap fun other => (outputs other).map (other, ·)) =
      if k ∈ keys then outputs k else [] := by
  induction keys with
  | nil => rfl
  | cons first rest ih =>
    obtain ⟨fresh, distinct⟩ := List.nodup_cons.mp distinct
    rw [List.flatMap_cons, outputsOf_append, ih distinct]
    by_cases here : first = k
    · subst here
      rw [outputsOf_self, if_neg fresh, List.append_nil, if_pos (List.mem_cons_self ..)]
    · simp only [outputsOf_of_ne here, List.nil_append, List.mem_cons, Ne.symm here, false_or]

end KeyedMachine
