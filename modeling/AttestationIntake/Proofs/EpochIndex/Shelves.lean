import AttestationIntake.EpochIndex.Shelves

/-!
What is seen of shelves through `find?`. Every change of shelves is described by the values that are
found afterwards, and `labelled` lists all values in the order in which they are read.
-/

namespace AttestationIntake.Shelves

open Std (ExtTreeMap TransOrd LawfulEqOrd)

variable {κ β : Type} [Ord κ] [TransOrd κ]

/-- No shelf is empty. -/
def NoneEmpty (shelves : Shelves κ β) : Prop :=
  ∀ (key : κ) (shelf : ExtTreeMap Nat β), shelves[key]? = some shelf → shelf ≠ ∅

/-- All values with their keys and numbers, by key and then by number. -/
def labelled (shelves : Shelves κ β) : List (κ × Nat × β) :=
  shelves.toList.flatMap fun (key, shelf) => shelf.toList.map fun (number, value) =>
    (key, number, value)

theorem entries_eq_map_labelled (shelves : Shelves κ β) :
    shelves.entries = shelves.labelled.map fun (_, number, value) => (number, value) := by
  simp [entries, labelled, List.map_flatMap, Function.comp_def]

@[simp]
theorem find?_empty (key : κ) (number : Nat) : find? (∅ : Shelves κ β) key number = none := by
  simp [find?]

/-! ## Empty shelves -/

theorem noneEmpty_empty : NoneEmpty (∅ : Shelves κ β) := by
  intro key shelf hshelf
  simp at hshelf

theorem NoneEmpty.put {shelves : Shelves κ β} (h : shelves.NoneEmpty) (key : κ) (number : Nat)
    (value : β) : (shelves.put key number value).NoneEmpty := by
  intro key' shelf hshelf
  rw [Shelves.put, ExtTreeMap.getElem?_alter] at hshelf
  split at hshelf
  · cases hshelf
    exact ExtTreeMap.insert_ne_empty
  · exact h key' shelf hshelf

theorem NoneEmpty.remove {shelves : Shelves κ β} (h : shelves.NoneEmpty) (key : κ)
    (number : Nat) : (shelves.remove key number).NoneEmpty := by
  intro key' shelf hshelf
  rw [Shelves.remove, ExtTreeMap.getElem?_alter] at hshelf
  split at hshelf
  -- The shelf that was changed passed the filter, which takes down empty ones.
  · obtain ⟨-, hkept⟩ := Option.filter_eq_some_iff.mp hshelf
    exact ExtTreeMap.isEmpty_eq_false_iff.mp (by simpa using hkept)
  · exact h key' shelf hshelf

theorem NoneEmpty.erase {shelves : Shelves κ β} (h : shelves.NoneEmpty) (key : κ) :
    NoneEmpty (shelves.erase key) := by
  intro key' shelf hshelf
  rw [ExtTreeMap.getElem?_erase] at hshelf
  split at hshelf
  · cases hshelf
  · exact h key' shelf hshelf

variable [LawfulEqOrd κ]

theorem getElem?_filterKeys (shelves : Shelves κ β) (keep : κ → Bool) (key : κ) :
    (shelves.filter fun key _ => keep key)[key]? = if keep key then shelves[key]? else none := by
  rw [ExtTreeMap.getElem?_filter']
  cases shelves[key]? with
  | none => rw [Option.filter_none, ite_self]
  | some shelf => rw [Option.filter_some]

theorem NoneEmpty.filterKeys {shelves : Shelves κ β} (h : shelves.NoneEmpty) (keep : κ → Bool) :
    NoneEmpty (shelves.filter fun key _ => keep key) := by
  intro key shelf hshelf
  rw [getElem?_filterKeys] at hshelf
  split at hshelf
  · exact h key shelf hshelf
  · cases hshelf

/-! ## Equality -/

omit [LawfulEqOrd κ] in
theorem find?_eq (shelves : Shelves κ β) (key : κ) (number : Nat) :
    shelves.find? key number = (shelves.getD key ∅)[number]? := by
  rw [find?, ExtTreeMap.getD_eq_getD_getElem?]
  cases shelves[key]? with
  | none => simp
  | some shelf => rfl

omit [LawfulEqOrd κ] in
theorem NoneEmpty.getElem?_eq {shelves : Shelves κ β} (h : shelves.NoneEmpty) (key : κ) :
    shelves[key]? =
      if (shelves.getD key ∅).isEmpty then none else some (shelves.getD key ∅) := by
  rw [ExtTreeMap.getD_eq_getD_getElem?]
  cases hshelf : shelves[key]? with
  | none => simp
  | some shelf => simp [ExtTreeMap.isEmpty_eq_false_iff.mpr (h key shelf hshelf)]

/-- With no shelf empty, shelves are the same if the same is found on them. -/
theorem NoneEmpty.ext {shelves shelves' : Shelves κ β} (h : shelves.NoneEmpty)
    (h' : shelves'.NoneEmpty)
    (hfind : ∀ key number, shelves.find? key number = shelves'.find? key number) :
    shelves = shelves' := by
  apply ExtTreeMap.ext_getElem?
  intro key
  have hshelf : shelves.getD key ∅ = shelves'.getD key ∅ := by
    apply ExtTreeMap.ext_getElem?
    intro number
    rw [← find?_eq, ← find?_eq, hfind]
  rw [h.getElem?_eq, h'.getElem?_eq, hshelf]

/-! ## Reading in order -/

theorem mem_labelled (shelves : Shelves κ β) (key : κ) (number : Nat) (value : β) :
    (key, number, value) ∈ shelves.labelled ↔ shelves.find? key number = some value := by
  simp only [labelled, find?, List.mem_flatMap, List.mem_map, Prod.exists, Prod.mk.injEq,
    ExtTreeMap.mem_toList_iff_getElem?_eq_some, Option.bind_eq_some_iff]
  constructor
  · rintro ⟨_, shelf, hshelf, _, _, hvalue, rfl, rfl, rfl⟩
    exact ⟨shelf, hshelf, hvalue⟩
  · rintro ⟨shelf, hshelf, hvalue⟩
    exact ⟨key, shelf, hshelf, number, value, hvalue, rfl, rfl, rfl⟩

omit [LawfulEqOrd κ] in
theorem labelled_ascending (shelves : Shelves κ β) :
    shelves.labelled.Pairwise fun a b =>
      compare a.1 b.1 = .lt ∨ (a.1 = b.1 ∧ a.2.1 < b.2.1) := by
  rw [labelled, List.pairwise_flatMap]
  constructor
  -- Within a shelf numbers ascend, from shelf to shelf keys do.
  · intro (key, shelf) _
    rw [List.pairwise_map]
    exact shelf.ordered_keys_toList.imp fun h => .inr ⟨rfl, Std.compare_eq_lt.mp h⟩
  · apply ExtTreeMap.ordered_keys_toList.imp
    intro (key, shelf) (key', shelf') hlt x hx y hy
    obtain ⟨_, -, rfl⟩ := List.mem_map.mp hx
    obtain ⟨_, -, rfl⟩ := List.mem_map.mp hy
    exact .inl hlt

omit [LawfulEqOrd κ] in
theorem labelled_filterKeys (shelves : Shelves κ β) (keep : κ → Bool) :
    labelled (shelves.filter fun key _ => keep key) = shelves.labelled.filter (keep ·.1) := by
  rw [labelled, labelled, ExtTreeMap.toList_filter]
  induction shelves.toList with
  | nil => rfl
  | cons first rest ih =>
    obtain ⟨key, shelf⟩ := first
    have hfirst : ∀ entries : List (Nat × β),
        (entries.map fun (number, value) => (key, number, value)).filter (keep ·.1) =
          if keep key then entries.map fun (number, value) => (key, number, value) else [] := by
      intro entries
      split
      · rename_i hkeep
        rw [List.filter_eq_self, List.forall_mem_map]
        exact fun _ _ => hkeep
      · rename_i hdrop
        rw [List.filter_eq_nil_iff, List.forall_mem_map]
        exact fun _ _ => hdrop
    rw [List.filter_cons, List.flatMap_cons, List.filter_append, ← ih, hfirst]
    split <;> rfl

/-- With no shelf empty, the first value of all stands first on the first shelf. -/
theorem head?_labelled {shelves : Shelves κ β} (h : shelves.NoneEmpty) {key : κ}
    {shelf : ExtTreeMap Nat β} (hfirst : shelves.toList.head? = some (key, shelf)) :
    ∃ number value, shelf.toList.head? = some (number, value) ∧
      shelves.labelled.head? = some (key, number, value) := by
  obtain ⟨rest, hlist⟩ := List.head?_eq_some_iff.mp hfirst
  have hshelf : shelf ≠ ∅ := by
    apply h key
    rw [← ExtTreeMap.mem_toList_iff_getElem?_eq_some, hlist]
    exact List.mem_cons_self
  obtain ⟨⟨number, value⟩, hvalue⟩ := Option.isSome_iff_exists.mp
    (List.isSome_head?.mpr (mt ExtTreeMap.toList_eq_nil_iff.mp hshelf))
  obtain ⟨others, hvalues⟩ := List.head?_eq_some_iff.mp hvalue
  refine ⟨number, value, hvalue, ?_⟩
  simp [labelled, hlist, hvalues]

/-! ## Finding values after a change -/

variable [DecidableEq κ]

theorem find?_put (shelves : Shelves κ β) (key key' : κ) (number number' : Nat) (value : β) :
    (shelves.put key number value).find? key' number' =
      if key = key' ∧ number = number' then some value else shelves.find? key' number' := by
  unfold find? put
  rw [ExtTreeMap.getElem?_alter]
  by_cases hkey : key = key'
  · subst hkey
    cases hshelf : shelves[key]? <;> simp [ExtTreeMap.getElem?_insert]
  · simp [hkey]

theorem find?_remove (shelves : Shelves κ β) (key key' : κ) (number number' : Nat) :
    (shelves.remove key number).find? key' number' =
      if key = key' ∧ number = number' then none else shelves.find? key' number' := by
  unfold find? remove
  rw [ExtTreeMap.getElem?_alter]
  by_cases hkey : key = key'
  · subst hkey
    cases hshelf : shelves[key]? with
    | none => simp
    | some shelf =>
      -- A shelf that was taken down has no value left to be found.
      by_cases hlast : (shelf.erase number).isEmpty
      · have hnone : (shelf.erase number)[number']? = none := by
          rw [ExtTreeMap.isEmpty_iff.mp hlast, ExtTreeMap.getElem?_empty]
        rw [ExtTreeMap.getElem?_erase] at hnone
        simpa [Option.filter_some, hlast] using hnone.symm
      · simp [Option.filter_some, hlast, ExtTreeMap.getElem?_erase]
  · simp [hkey]

theorem find?_erase (shelves : Shelves κ β) (key key' : κ) (number : Nat) :
    find? (shelves.erase key) key' number =
      if key = key' then none else shelves.find? key' number := by
  unfold find?
  rw [ExtTreeMap.getElem?_erase]
  by_cases hkey : key = key' <;> simp [hkey]

omit [DecidableEq κ] in
theorem find?_filterKeys (shelves : Shelves κ β) (keep : κ → Bool) (key : κ) (number : Nat) :
    find? (shelves.filter fun key _ => keep key) key number =
      if keep key then shelves.find? key number else none := by
  unfold find?
  rw [getElem?_filterKeys]
  split <;> rfl

end AttestationIntake.Shelves
