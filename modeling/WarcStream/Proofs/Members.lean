import WarcStream.Value
/-!
# Members of one name

An object may be written with several members of one name. `lastMembers` leaves
out those that another of their name stands behind. Bringing an object in order
leaves out the same (`sorted_lastOnly`), so what is made of the ordered object
cannot depend on them.
-/

namespace WarcStream

variable {key key' : String} {v v' : Value} {found members : List (String × Value)}

/-! ## The last of each name -/

/-- The members of which no other of their name stands behind them. -/
def lastMembers : List (String × Value) → List (String × Value)
  | [] => []
  | (key, v) :: rest =>
    if key ∈ rest.map Prod.fst then lastMembers rest else (key, v) :: lastMembers rest

/-- No name is left out altogether. -/
theorem mem_names_lastMembers :
    key ∈ (lastMembers members).map Prod.fst ↔ key ∈ members.map Prod.fst := by
  fun_induction lastMembers members with
  | case1 => rfl
  | case2 other v rest hother ih =>
    rw [ih, List.map_cons, List.mem_cons]
    refine ⟨.inr, ?_⟩
    rintro (rfl | h)
    · exact hother
    · exact h
  | case3 other v rest _ ih =>
    rw [List.map_cons, List.map_cons, List.mem_cons, List.mem_cons, ih]

/-- No name is there twice. -/
theorem nodup_names_lastMembers (members : List (String × Value)) :
    ((lastMembers members).map Prod.fst).Nodup := by
  fun_induction lastMembers members with
  | case1 => exact List.nodup_nil
  | case2 _ _ _ _ ih => exact ih
  | case3 key v rest hkey ih =>
    rw [List.map_cons, List.nodup_cons, mem_names_lastMembers]
    exact ⟨hkey, ih⟩

/-- **Nothing is left out** just if no name is there twice. -/
theorem lastMembers_eq_self_iff : lastMembers members = members ↔ (members.map Prod.fst).Nodup := by
  constructor
  · intro h
    have hnodup := nodup_names_lastMembers members
    rwa [h] at hnodup
  · intro h
    fun_induction lastMembers members with
    | case1 => rfl
    | case2 key v rest hkey =>
      rw [List.map_cons, List.nodup_cons] at h
      exact absurd hkey h.1
    | case3 key v rest _ ih =>
      rw [List.map_cons, List.nodup_cons] at h
      rw [ih h.2]

/-! ## Members in order -/

/-- The last value of a name counts. -/
theorem insertEntry_insertEntry (key : String) (v v' : Value) (found : List (String × Value)) :
    insertEntry key v (insertEntry key v' found) = insertEntry key v found := by
  fun_induction insertEntry key v' found with
  | case1 => simp [insertEntry]
  | case2 => simp [insertEntry]
  | case3 => simp [insertEntry, *]
  | case4 => simp [insertEntry, *]

/-- The order of different names does not. -/
theorem insertEntry_comm (h : key ≠ key') (v v' : Value) (found : List (String × Value)) :
    insertEntry key v (insertEntry key' v' found) =
      insertEntry key' v' (insertEntry key v found) := by
  induction found with
  | nil => grind [insertEntry]
  | cons entry rest ih => grind [insertEntry]

theorem mem_names_insertEntry :
    key' ∈ (insertEntry key v found).map Prod.fst ↔ key' = key ∨ key' ∈ found.map Prod.fst := by
  fun_induction insertEntry key v found with
  | case1 => simp
  | case2 => simp
  | case3 => simp
  | case4 other w rest _ _ ih =>
    simp only [List.map_cons, List.mem_cons, ih]
    exact or_left_comm

theorem length_insertEntry (h : key ∉ found.map Prod.fst) :
    (insertEntry key v found).length = found.length + 1 := by
  fun_induction insertEntry key v found with
  | case1 => rfl
  | case2 => simp at h
  | case3 => rfl
  | case4 other w rest _ _ ih =>
    rw [List.map_cons, List.mem_cons, not_or] at h
    rw [List.length_cons, List.length_cons, ih h.2]

namespace Value

/-- A member makes no difference if another of its name is still to come. -/
theorem sortedEntries_insertEntry (h : key ∈ members.map Prod.fst) (v : Value)
    (found : List (String × Value)) :
    sortedEntries members (insertEntry key v found) = sortedEntries members found := by
  induction members generalizing found with
  | nil => cases h
  | cons member rest ih =>
    obtain ⟨other, w⟩ := member
    rw [sortedEntries, sortedEntries]
    by_cases hsame : key = other
    · subst hsame
      rw [insertEntry_insertEntry]
    · -- the other member changes places with this one, and the name is still to come behind it
      rw [insertEntry_comm (Ne.symm hsame)]
      refine ih ?_ _
      rw [List.map_cons, List.mem_cons] at h
      exact h.resolve_left hsame

/-- **Members are brought in order as the last of each name are.** -/
theorem sortedEntries_lastMembers (members found : List (String × Value)) :
    sortedEntries (lastMembers members) found = sortedEntries members found := by
  fun_induction lastMembers members generalizing found with
  | case1 => rfl
  | case2 key v rest hkey ih => rw [sortedEntries, sortedEntries_insertEntry hkey, ih]
  | case3 key v rest _ ih => rw [sortedEntries, sortedEntries, ih]

/-- None of the members is lost if their names are new. -/
theorem length_sortedEntries (hnodup : (members.map Prod.fst).Nodup)
    (hnew : ∀ key ∈ members.map Prod.fst, key ∉ found.map Prod.fst) :
    (sortedEntries members found).length = members.length + found.length := by
  induction members generalizing found with
  | nil => rw [sortedEntries, List.length_nil, Nat.zero_add]
  | cons member rest ih =>
    obtain ⟨key, v⟩ := member
    rw [List.map_cons, List.nodup_cons] at hnodup
    rw [List.map_cons, List.forall_mem_cons] at hnew
    have hrest : ∀ other ∈ rest.map Prod.fst,
        other ∉ (insertEntry key v.sorted found).map Prod.fst := by
      intro other hother hmem
      rcases mem_names_insertEntry.1 hmem with rfl | hmem
      · exact hnodup.1 hother
      · exact hnew.2 other hother hmem
    rw [sortedEntries, ih hnodup.2 hrest, length_insertEntry hnew.1, List.length_cons]
    omega

/-- **One member in order** is one name, with the last value it was given. -/
theorem sortedEntries_eq_singleton_iff :
    sortedEntries members [] = [(key, v)] ↔
      ∃ w, lastMembers members = [(key, w)] ∧ w.sorted = v := by
  rw [← sortedEntries_lastMembers]
  constructor
  · intro h
    have hnew : ∀ key ∈ (lastMembers members).map Prod.fst,
        key ∉ ([] : List (String × Value)).map Prod.fst := fun _ _ => List.not_mem_nil
    have hlength := length_sortedEntries (nodup_names_lastMembers members) hnew
    rw [h, List.length_singleton, List.length_nil, Nat.add_zero] at hlength
    obtain ⟨⟨other, w⟩, hlast⟩ := List.length_eq_one_iff.1 hlength.symm
    rw [hlast] at h
    simp only [sortedEntries, insertEntry, List.cons.injEq, Prod.mk.injEq, and_true] at h
    obtain ⟨rfl, rfl⟩ := h
    exact ⟨w, hlast, rfl⟩
  · rintro ⟨w, hlast, rfl⟩
    rw [hlast]
    rfl

/-- The value with the last of each name for its members. -/
def lastOnly : Value → Value
  | .object members => .object (lastMembers members)
  | v => v

/-- No two members have one name. -/
def NamesOnce : Value → Prop
  | .object members => (members.map Prod.fst).Nodup
  | _ => True

theorem lastOnly_eq_self_iff : v.lastOnly = v ↔ v.NamesOnce := by
  cases v with
  | object members =>
    rw [NamesOnce, ← lastMembers_eq_self_iff, lastOnly]
    exact ⟨fun h => by injection h, congrArg Value.object⟩
  | null | bool | number | string | array => exact ⟨fun _ => trivial, fun _ => rfl⟩

theorem sorted_lastOnly (v : Value) : v.lastOnly.sorted = v.sorted := by
  cases v with
  | object members => exact congrArg Value.object (sortedEntries_lastMembers members [])
  | null | bool | number | string | array => rfl

end Value

end WarcStream
