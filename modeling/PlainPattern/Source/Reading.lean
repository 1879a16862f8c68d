import PlainPattern.Source.Location
import PlainPattern.Source.Progress

/-!
Contract: what a whole schema text says.

Owns: readings, which are the edits that a text spells out and the fault that ends it, if one does,
and the stations that a reading comes through. Reading knows nothing of whether the edits are
allowed. `onward_stop`, `onward_go` and `onward_declare` say how a reading is made of moves, each of
which leaves a shorter text, so a text of any length is read in one pass; by `onward_eq_stations`
these are the moves from its stations, one after another.
-/

set_option autoImplicit false

namespace PlainPattern

structure Reading where
  edits : List Edit
  fault : Option Fault

namespace Reading

/-- The same reading with these edits in front. -/
def behind (edits : List Edit) (reading : Reading) : Reading :=
  ⟨edits ++ reading.edits, reading.fault⟩

/-- Reads on from a place until the text ends or a fault arises. -/
def onward (declared : List String) (place : Place) (rest : List Char) : Reading :=
  match _moved : place.move declared rest with
  | .stop edits fault => ⟨edits, fault⟩
  | .go edits next after => (onward declared next after).behind edits
  | .declare name after => onward (name :: declared) (.top (some name)) after
termination_by rest.length
decreasing_by
  · have advances := place.move_advances declared rest
    rw [_moved] at advances
    exact advances.2
  · have advances := place.move_advances declared rest
    rw [_moved] at advances
    exact advances.2

/-- Reads a schema text from its start, where no symbol has been named. -/
def ofText (source : List Char) : Reading :=
  onward [] (.top none) source

theorem onward_stop {declared : List String} {place : Place} {rest : List Char}
    {edits : List Edit} {fault : Option Fault}
    (moved : place.move declared rest = .stop edits fault) :
    onward declared place rest = ⟨edits, fault⟩ := by
  unfold onward
  split <;> simp_all

theorem onward_go {declared : List String} {place next : Place} {rest after : List Char}
    {edits : List Edit} (moved : place.move declared rest = .go edits next after) :
    onward declared place rest = (onward declared next after).behind edits := by
  rw [onward]
  split <;> simp_all

theorem onward_declare {declared : List String} {place : Place} {rest after : List Char}
    {name : String} (moved : place.move declared rest = .declare name after) :
    onward declared place rest = onward (name :: declared) (.top (some name)) after := by
  rw [onward]
  split <;> simp_all

end Reading

/-! ## Stations -/

/-- Where a reading makes a move: the place, the text that is unread there, and the names that have
been declared by then. -/
structure Station where
  declared : List String
  place : Place
  rest : List Char

def Station.move (station : Station) : Move :=
  station.place.move station.declared station.rest

namespace Reading

/-- The stations that a reading comes through. -/
def stations (declared : List String) (place : Place) (rest : List Char) : List Station :=
  match _moved : place.move declared rest with
  | .stop _ _ => [⟨declared, place, rest⟩]
  | .go _ next after => ⟨declared, place, rest⟩ :: stations declared next after
  | .declare name after =>
      ⟨declared, place, rest⟩ :: stations (name :: declared) (.top (some name)) after
termination_by rest.length
decreasing_by
  · have advances := place.move_advances declared rest
    rw [_moved] at advances
    exact advances.2
  · have advances := place.move_advances declared rest
    rw [_moved] at advances
    exact advances.2

/-- A reading has the edits of the moves from its stations, and the fault that one of them finds. -/
theorem onward_eq_stations (declared : List String) (place : Place) (rest : List Char) :
    onward declared place rest =
      ⟨(stations declared place rest).flatMap fun station => station.move.edits,
        (stations declared place rest).findSome? fun station => station.move.fault?⟩ := by
  fun_induction stations declared place rest with
  | case1 declared place rest edits fault moved =>
      rw [onward_stop moved]
      simp [Station.move, moved, Move.edits, Move.fault?]
  | case2 declared place rest edits next after moved inductionHypothesis =>
      rw [onward_go moved, inductionHypothesis]
      simp [Station.move, moved, Move.edits, Move.fault?, behind]
  | case3 declared place rest name after moved inductionHypothesis =>
      rw [onward_declare moved, inductionHypothesis]
      simp [Station.move, moved, Move.edits, Move.fault?]

/-- The fault of a reading is the fault of what is read from any of its stations. -/
theorem fault_of_mem_stations {station : Station} (declared : List String) (place : Place)
    (rest : List Char) (member : station ∈ stations declared place rest) :
    (onward declared place rest).fault =
      (onward station.declared station.place station.rest).fault := by
  fun_induction stations declared place rest with
  | case1 declared place rest edits fault moved =>
      obtain rfl := List.mem_singleton.1 member
      rfl
  | case2 declared place rest edits next after moved inductionHypothesis =>
      rcases List.mem_cons.1 member with rfl | later
      · rfl
      · rw [onward_go moved]
        exact inductionHypothesis later
  | case3 declared place rest name after moved inductionHypothesis =>
      rcases List.mem_cons.1 member with rfl | later
      · rfl
      · rw [onward_declare moved]
        exact inductionHypothesis later

end Reading

end PlainPattern
