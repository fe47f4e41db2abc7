import WarcStream.Proofs.Members
import Mathlib.Data.List.Sort
import Mathlib.Data.String.Basic
/-!
# Values in order

A value that was read keeps the members of every object in the order of their
names, with one member a name. `Value.Ordered` says so, and it holds just of the
values that sorting leaves as they are (`ordered_iff`). Two objects in order with
the same members are the same (`eq_of_sortedNames`).
-/

namespace WarcStream

variable {key : String} {v : Value} {entries entries' found : List (String × Value)}
variable {items : List Value}

/-- The members stand in the order of their names, and no name is there twice. -/
def SortedNames (entries : List (String × Value)) : Prop :=
  (entries.map Prod.fst).Pairwise (· < ·)

theorem SortedNames.nodup (h : SortedNames entries) : (entries.map Prod.fst).Nodup :=
  h.imp fun hless => ne_of_lt hless

theorem SortedNames.pairwise (h : SortedNames entries) :
    entries.Pairwise fun entry entry' => entry.1 < entry'.1 :=
  List.pairwise_map.1 h

/-- **Members in order are determined by which they are.** -/
theorem eq_of_sortedNames (h : SortedNames entries) (h' : SortedNames entries')
    (hmem : ∀ entry, entry ∈ entries ↔ entry ∈ entries') : entries = entries' := by
  have hperm : entries.Perm entries' :=
    (List.perm_ext_iff_of_nodup h.nodup.of_map h'.nodup.of_map).2 hmem
  exact hperm.eq_of_pairwise (fun _ _ _ _ hless hmore => absurd hmore (lt_asymm hless))
    h.pairwise h'.pairwise

/-- A member is put in its place. -/
theorem SortedNames.insertEntry (h : SortedNames found) (key : String) (v : Value) :
    SortedNames (insertEntry key v found) := by
  unfold SortedNames at h ⊢
  fun_induction WarcStream.insertEntry key v found with
  | case1 => exact List.pairwise_singleton _ _
  | case2 w rest => exact h
  | case3 k w rest _ hless =>
    rw [List.map_cons, List.map_cons, List.pairwise_cons]
    refine ⟨fun name hname => ?_, h⟩
    rcases List.mem_cons.1 hname with rfl | hrest
    · exact hless
    · exact lt_trans hless (List.rel_of_pairwise_cons h hrest)
  | case4 k w rest hne hnot ih =>
    rw [List.map_cons, List.pairwise_cons] at h ⊢
    refine ⟨fun name hname => ?_, ih h.2⟩
    rcases mem_names_insertEntry.1 hname with rfl | hrest
    · exact lt_of_le_of_ne (not_lt.1 hnot) (Ne.symm hne)
    · exact h.1 name hrest

/-- A name behind all of the names that were found goes to the end. -/
theorem insertEntry_of_lt (h : ∀ name ∈ found.map Prod.fst, name < key) :
    insertEntry key v found = found ++ [(key, v)] := by
  fun_induction insertEntry key v found with
  | case1 => rfl
  | case2 w rest => exact absurd (h key List.mem_cons_self) (lt_irrefl key)
  | case3 k w rest _ hless => exact absurd (h k List.mem_cons_self) (lt_asymm hless)
  | case4 k w rest _ _ ih =>
    rw [ih fun name hname => h name (List.mem_cons_of_mem k hname)]
    rfl

namespace Value

/-- **The members of every object are in order**, at any depth. -/
inductive Ordered : Value → Prop
  | null : Ordered .null
  | bool (b : Bool) : Ordered (.bool b)
  | number (n : Number) : Ordered (.number n)
  | string (s : String) : Ordered (.string s)
  | array {items : List Value} : (∀ v ∈ items, Ordered v) → Ordered (.array items)
  | object {entries : List (String × Value)} :
      SortedNames entries → (∀ entry ∈ entries, Ordered entry.2) → Ordered (.object entries)

theorem ordered_object_iff :
    (object entries).Ordered ↔ SortedNames entries ∧ ∀ entry ∈ entries, entry.2.Ordered := by
  constructor
  · intro h
    cases h with
    | object hnames hvalues => exact ⟨hnames, hvalues⟩
  · rintro ⟨hnames, hvalues⟩
    exact .object hnames hvalues

/-- A value in order is put in its place among the members of an object in order. -/
theorem Ordered.insertEntry (h : (Value.object found).Ordered) (hv : v.Ordered) (key : String) :
    (Value.object (insertEntry key v found)).Ordered := by
  obtain ⟨hnames, hvalues⟩ := ordered_object_iff.1 h
  refine ordered_object_iff.2 ⟨hnames.insertEntry key v, ?_⟩
  clear h hnames
  fun_induction WarcStream.insertEntry key v found with
  | case1 => exact List.forall_mem_singleton.2 hv
  | case2 w rest => exact List.forall_mem_cons.2 ⟨hv, (List.forall_mem_cons.1 hvalues).2⟩
  | case3 => exact List.forall_mem_cons.2 ⟨hv, hvalues⟩
  | case4 k w rest _ _ ih =>
    obtain ⟨hw, hrest⟩ := List.forall_mem_cons.1 hvalues
    exact List.forall_mem_cons.2 ⟨hw, ih hrest⟩

mutual

/-- **What is sorted is in order.** -/
theorem ordered_sorted : (v : Value) → v.sorted.Ordered
  | .null => .null
  | .bool b => .bool b
  | .number n => .number n
  | .string s => .string s
  | .array items => .array (ordered_sortedItems items)
  | .object entries => ordered_sortedEntries entries [] (.object .nil (by simp))

theorem ordered_sortedItems : (items : List Value) → ∀ v ∈ sortedItems items, v.Ordered
  | [] => by simp [sortedItems]
  | v :: rest => List.forall_mem_cons.2 ⟨ordered_sorted v, ordered_sortedItems rest⟩

theorem ordered_sortedEntries : (entries found : List (String × Value)) →
    (object found).Ordered → (object (sortedEntries entries found)).Ordered
  | [], _, h => h
  | (key, v) :: rest, _, h =>
    ordered_sortedEntries rest _ (h.insertEntry (ordered_sorted v) key)

end

theorem sortedItems_eq_self (h : ∀ v ∈ items, v.sorted = v) : sortedItems items = items := by
  induction items with
  | nil => rfl
  | cons v rest ih =>
    obtain ⟨hv, hrest⟩ := List.forall_mem_cons.1 h
    rw [sortedItems, hv, ih hrest]

/-- Members that are in order behind those found are put behind them. -/
theorem sortedEntries_eq_append (hnames : SortedNames (found ++ entries))
    (hvalues : ∀ entry ∈ entries, entry.2.sorted = entry.2) :
    sortedEntries entries found = found ++ entries := by
  induction entries generalizing found with
  | nil => rw [sortedEntries, List.append_nil]
  | cons entry rest ih =>
    obtain ⟨key, v⟩ := entry
    obtain ⟨hv, hrest⟩ := List.forall_mem_cons.1 hvalues
    have hlast : ∀ name ∈ found.map Prod.fst, name < key := by
      unfold SortedNames at hnames
      rw [List.map_append, List.pairwise_append] at hnames
      exact fun name hname => hnames.2.2 name hname key List.mem_cons_self
    rw [List.append_cons] at hnames ⊢
    rw [sortedEntries, hv, insertEntry_of_lt hlast, ih hnames hrest]

theorem Ordered.sorted_eq (h : v.Ordered) : v.sorted = v := by
  induction h with
  | null | bool | number | string => rfl
  | array _ ih => exact congrArg Value.array (sortedItems_eq_self ih)
  | object hnames _ ih => exact congrArg Value.object (sortedEntries_eq_append hnames ih)

/-- **A value is in order** just if sorting leaves it as it is. -/
theorem ordered_iff : v.Ordered ↔ v.sorted = v := by
  constructor
  · exact Ordered.sorted_eq
  · intro h
    rw [← h]
    exact ordered_sorted v

instance (v : Value) : Decidable v.Ordered := decidable_of_iff _ ordered_iff.symm

end Value

end WarcStream
