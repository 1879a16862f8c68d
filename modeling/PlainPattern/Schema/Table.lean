/-!
Contract: a table of named values, kept in ascending order of the names by code point.

Owns: the sorted list of entries, insertion that replaces an entry of the same name, and lookup.
The order is part of the type, so a table has exactly one form for each assignment of values to
names: `Table.ext_get?` says that two tables with the same lookups are equal. `get?_insert` is the
one equation through which insertion is seen.
-/

set_option autoImplicit false

namespace PlainPattern

variable {Value : Type}

/-- Entry names ascend strictly, so no name occurs twice. -/
def Ascending (entries : List (String × Value)) : Prop :=
  entries.Pairwise fun earlier later => earlier.1 < later.1

/-- Puts a value in its place in the order, over the old value of the same name if there is one. -/
def insertEntry (name : String) (value : Value) :
    List (String × Value) → List (String × Value)
  | [] => [(name, value)]
  | entry :: rest =>
      if name < entry.1 then (name, value) :: entry :: rest
      else if name = entry.1 then (name, value) :: rest
      else entry :: insertEntry name value rest

theorem mem_insertEntry {name : String} {value : Value} {entry : String × Value} :
    ∀ {entries : List (String × Value)}, entry ∈ insertEntry name value entries →
      entry = (name, value) ∨ entry ∈ entries
  | [], member => by simpa [insertEntry] using member
  | head :: rest, member => by
      unfold insertEntry at member
      split at member
      · simpa using member
      · split at member
        · rcases List.mem_cons.1 member with same | inRest
          · exact Or.inl same
          · exact Or.inr (List.mem_cons_of_mem _ inRest)
        · rcases List.mem_cons.1 member with same | inRest
          · exact Or.inr (same ▸ List.mem_cons_self)
          · rcases mem_insertEntry inRest with same | old
            · exact Or.inl same
            · exact Or.inr (List.mem_cons_of_mem _ old)

private theorem lt_of_not_lt_of_ne {first second : String} (notLess : ¬first < second)
    (different : first ≠ second) : second < first :=
  String.not_le.1 fun atMost =>
    different (String.le_antisymm atMost (String.not_lt.1 notLess))

theorem ascending_insertEntry (name : String) (value : Value) :
    ∀ {entries : List (String × Value)}, Ascending entries →
      Ascending (insertEntry name value entries)
  | [], _ => List.pairwise_singleton _ _
  | head :: rest, ascending => by
      have headLess := (List.pairwise_cons.1 ascending).1
      have restAscending : Ascending rest := (List.pairwise_cons.1 ascending).2
      unfold insertEntry
      split
      · rename_i before
        refine List.pairwise_cons.2 ⟨fun later member => ?_, ascending⟩
        rcases List.mem_cons.1 member with same | inRest
        · exact same ▸ before
        · exact String.lt_trans before (headLess later inRest)
      · split
        · rename_i same
          exact List.pairwise_cons.2
            ⟨fun later member => same ▸ headLess later member, restAscending⟩
        · rename_i notBefore different
          refine List.pairwise_cons.2
            ⟨fun later member => ?_, ascending_insertEntry name value restAscending⟩
          rcases mem_insertEntry member with same | old
          · exact same ▸ lt_of_not_lt_of_ne notBefore different
          · exact headLess later old

theorem lookup_cons_eq_ite (name key : String) (value : Value) (rest : List (String × Value)) :
    ((key, value) :: rest).lookup name = if name = key then some value else rest.lookup name := by
  by_cases same : name = key
  · simp [same]
  · have differ : (name == key) = false := by simpa using same
    simp [List.lookup_cons, differ, same]

/-- Values under names, in ascending order of the names. -/
structure Table (Value : Type) where
  entries : List (String × Value) := []
  ascending : Ascending entries := by exact List.Pairwise.nil
deriving DecidableEq

namespace Table

instance : EmptyCollection (Table Value) := ⟨{}⟩

def get? (table : Table Value) (name : String) : Option Value :=
  table.entries.lookup name

def contains (table : Table Value) (name : String) : Bool :=
  (table.get? name).isSome

def insert (table : Table Value) (name : String) (value : Value) : Table Value :=
  ⟨insertEntry name value table.entries, ascending_insertEntry name value table.ascending⟩

/-- The names, in ascending order. -/
def names (table : Table Value) : List String :=
  table.entries.map Prod.fst

def size (table : Table Value) : Nat :=
  table.entries.length

@[simp] theorem get?_empty (name : String) : (∅ : Table Value).get? name = none := rfl

private theorem lookup_insertEntry (name other : String) (value : Value) :
    ∀ entries : List (String × Value),
      (insertEntry name value entries).lookup other =
        if other = name then some value else entries.lookup other
  | [] => lookup_cons_eq_ite other name value []
  | (key, old) :: rest => by
      have inductionHypothesis := lookup_insertEntry name other value rest
      unfold insertEntry
      split
      · exact lookup_cons_eq_ite other name value _
      · split
        · rename_i sameKey
          simp only at sameKey
          by_cases same : other = name <;> simp [lookup_cons_eq_ite, same, ← sameKey]
        · rename_i different
          simp only at different
          by_cases sameKey : other = key
          · have otherName : other ≠ name := fun same => different (same ▸ sameKey)
            simp [sameKey, sameKey ▸ otherName]
          · simp [lookup_cons_eq_ite, sameKey, inductionHypothesis]

/-- After an insertion the inserted name has the new value and every other name its old one. -/
theorem get?_insert (table : Table Value) (name other : String) (value : Value) :
    (table.insert name value).get? other = if other = name then some value else table.get? other :=
  lookup_insertEntry name other value table.entries

private theorem lookup_eq_none_of_less {name : String} :
    ∀ {entries : List (String × Value)}, (∀ entry ∈ entries, name < entry.1) →
      entries.lookup name = none
  | [], _ => rfl
  | (key, value) :: rest, less => by
      have headLess : name < key := less (key, value) List.mem_cons_self
      have different : name ≠ key := fun same => String.lt_irrefl key (same ▸ headLess)
      have restNone := lookup_eq_none_of_less fun entry member =>
        less entry (List.mem_cons_of_mem _ member)
      simp [lookup_cons_eq_ite, different, restNone]

theorem mem_entries_iff (table : Table Value) (name : String) (value : Value) :
    (name, value) ∈ table.entries ↔ table.get? name = some value := by
  obtain ⟨entries, ascending⟩ := table
  simp only [get?]
  induction entries with
  | nil => simp
  | cons head rest inductionHypothesis =>
      obtain ⟨key, old⟩ := head
      have headLess := (List.pairwise_cons.1 ascending).1
      have inRest := inductionHypothesis (List.pairwise_cons.1 ascending).2
      by_cases same : name = key
      · subst same
        have absent : rest.lookup name = none := lookup_eq_none_of_less headLess
        have notInRest : (name, value) ∉ rest := fun member => by
          rw [inRest, absent] at member
          cases member
        simp [notInRest, eq_comm]
      · simp [lookup_cons_eq_ite, same, inRest]

theorem mem_names_iff (table : Table Value) (name : String) :
    name ∈ table.names ↔ table.contains name = true := by
  simp only [names, contains, List.mem_map, Option.isSome_iff_exists]
  constructor
  · rintro ⟨⟨key, value⟩, member, rfl⟩
    exact ⟨value, (table.mem_entries_iff key value).1 member⟩
  · rintro ⟨value, found⟩
    exact ⟨(name, value), (table.mem_entries_iff name value).2 found, rfl⟩

/-- Two tables that answer every lookup alike are the same table. -/
theorem ext_get? {first second : Table Value}
    (sameLookups : ∀ name, first.get? name = second.get? name) : first = second := by
  have sameMembers : ∀ entry, entry ∈ first.entries ↔ entry ∈ second.entries := by
    rintro ⟨name, value⟩
    rw [mem_entries_iff, mem_entries_iff, sameLookups]
  obtain ⟨left, leftAscending⟩ := first
  obtain ⟨right, rightAscending⟩ := second
  have sameEntries : left = right := by
    clear sameLookups
    simp only at sameMembers
    induction left generalizing right with
    | nil =>
        cases right with
        | nil => rfl
        | cons head rest => exact absurd ((sameMembers head).2 List.mem_cons_self) (by simp)
    | cons head rest inductionHypothesis =>
        cases right with
        | nil => exact absurd ((sameMembers head).1 List.mem_cons_self) (by simp)
        | cons otherHead otherRest =>
            have leftLess := (List.pairwise_cons.1 leftAscending).1
            have rightLess := (List.pairwise_cons.1 rightAscending).1
            have sameHead : head = otherHead := by
              rcases List.mem_cons.1 ((sameMembers head).1 List.mem_cons_self) with same | inRight
              · exact same
              · rcases List.mem_cons.1 ((sameMembers otherHead).2 List.mem_cons_self) with
                  same | inLeft
                · exact same.symm
                · exact absurd (String.lt_trans (leftLess _ inLeft) (rightLess _ inRight))
                    (String.lt_irrefl _)
            subst sameHead
            have sameRest : ∀ entry, entry ∈ rest ↔ entry ∈ otherRest := by
              intro entry
              constructor
              · intro member
                rcases List.mem_cons.1 ((sameMembers entry).1 (List.mem_cons_of_mem _ member)) with
                  same | inRight
                · exact absurd (same ▸ leftLess entry member) (String.lt_irrefl _)
                · exact inRight
              · intro member
                rcases List.mem_cons.1 ((sameMembers entry).2 (List.mem_cons_of_mem _ member)) with
                  same | inLeft
                · exact absurd (same ▸ rightLess entry member) (String.lt_irrefl _)
                · exact inLeft
            rw [inductionHypothesis (List.pairwise_cons.1 leftAscending).2 otherRest
              (List.pairwise_cons.1 rightAscending).2 sameRest]
  subst sameEntries
  rfl

end Table

end PlainPattern
