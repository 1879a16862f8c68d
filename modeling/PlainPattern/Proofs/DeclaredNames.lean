import PlainPattern.Proofs.SymbolKeys

/-!
Contract: what a reader remembers of the symbols before are their names, and nothing else.

Owns: readings that come to the end of a text without a fault, with the names that they declare
(`Reads`). The names are those that the edits of the reading give, none of them is declared twice
(`Reads.fresh`), and a reading stays what it is where other names have been declared before, as long
as none of its own is among them (`Reads.among`).
-/

set_option autoImplicit false

namespace PlainPattern

open Text Lexeme Element

/-- The names that edits give to symbols, in the order of the edits. -/
def givenNames (edits : List Edit) : List String :=
  edits.filterMap Edit.name?

theorem givenNames_append (first second : List Edit) :
    givenNames (first ++ second) = givenNames first ++ givenNames second :=
  List.filterMap_append

/-- The name that waits for its definition. -/
def Place.pending? : Place → Option String
  | .top pending => pending
  | .rules _ | .line _ _ | .elements _ => none

/-- A reading that comes to the end of the text without a fault: its edits, and the names that it
declares. -/
inductive Reads : List String → Place → List Char → List Edit → List String → Prop where
  | ended {declared : List String} {place : Place} {rest : List Char} {edits : List Edit}
      (moved : place.move declared rest = .stop edits none) : Reads declared place rest edits []
  | goes {declared new : List String} {place next : Place} {rest after : List Char}
      {edits later : List Edit} (moved : place.move declared rest = .go edits next after)
      (behind : Reads declared next after later new) :
      Reads declared place rest (edits ++ later) new
  | declares {declared new : List String} {place : Place} {rest after : List Char} {name : String}
      {later : List Edit} (moved : place.move declared rest = .declare name after)
      (behind : Reads (name :: declared) (.top (some name)) after later new) :
      Reads declared place rest later (name :: new)

namespace Reading

theorem reads_of_onward {declared : List String} {place : Place} {rest : List Char}
    (noFault : (onward declared place rest).fault = none) :
    ∃ new, Reads declared place rest (onward declared place rest).edits new := by
  fun_induction onward declared place rest with
  | case1 declared place rest edits fault moved =>
      cases noFault
      exact ⟨[], .ended moved⟩
  | case2 declared place rest edits next after moved inductionHypothesis =>
      obtain ⟨new, behind⟩ := inductionHypothesis noFault
      exact ⟨new, .goes moved behind⟩
  | case3 declared place rest name after moved inductionHypothesis =>
      obtain ⟨new, behind⟩ := inductionHypothesis noFault
      exact ⟨name :: new, .declares moved behind⟩

end Reading

theorem Reads.onward_eq {declared new : List String} {place : Place} {rest : List Char}
    {edits : List Edit} (reads : Reads declared place rest edits new) :
    Reading.onward declared place rest = ⟨edits, none⟩ := by
  induction reads with
  | ended moved => exact Reading.onward_stop moved
  | goes moved _ inductionHypothesis =>
      rw [Reading.onward_go moved, inductionHypothesis]
      rfl
  | declares moved _ inductionHypothesis =>
      rw [Reading.onward_declare moved, inductionHypothesis]

/-! ## Names of moves -/

/-- The move names no symbol, and does not end the text. -/
def Move.Silent : Move → Prop
  | .stop _ fault => fault ≠ none
  | .go edits next _ => givenNames edits = [] ∧ next.pending? = none
  | .declare _ _ => False

/-- The move stays where it is, or it defines the name that waits, if there is one, or ends the text
where none waits. It declares nothing. -/
def Move.Defines (place : Place) : Move → Prop
  | .stop edits fault => fault = none → edits = [] ∧ place = .top none
  | .go edits next _ => (edits = [] ∧ next = place) ∨
      (givenNames edits = place.pending?.toList ∧ next.pending? = none)
  | .declare _ _ => False

theorem Move.Silent.defines {move : Move} {place : Place} (silent : move.Silent)
    (noName : place.pending? = none) : move.Defines place := by
  cases move with
  | stop edits fault => exact fun noFault => absurd noFault silent
  | go edits next after => exact Or.inr ⟨by rw [noName]; exact silent.1, silent.2⟩
  | declare => exact silent

namespace Place

variable {depth : Nat} {slot : Slot} {rest : List Char}

theorem complain_silent {complaint : Complaint} : (Move.complain complaint rest).Silent :=
  Option.some_ne_none _

theorem constructMove_silent {construct : Lead → Move} (silent : ∀ lead, (construct lead).Silent) :
    (constructMove slot rest construct).Silent := by
  cases slot with
  | awaiting lead => exact silent lead
  | filled => exact complain_silent

theorem endMove_silent {ended : Move} (silent : ended.Silent) :
    (endMove slot rest ended).Silent := by
  cases slot with
  | awaiting => exact complain_silent
  | filled => exact silent

theorem closingMove_silent : (closingMove depth rest).Silent := by
  cases depth with
  | zero => exact complain_silent
  | succ => exact ⟨rfl, rfl⟩

theorem openingMove_silent : (openingMove depth slot rest).Silent := by
  cases slot with
  | awaiting => exact ⟨rfl, rfl⟩
  | filled => exact complain_silent

theorem literalMove_silent (lead : Lead) : (literalMove depth lead rest).Silent := by
  unfold literalMove
  split
  · exact Option.some_ne_none _
  · exact ⟨rfl, rfl⟩

theorem modifierMove_silent (extend : Lead → Lead) :
    (modifierMove depth slot extend rest).Silent := by
  cases slot with
  | filled => exact complain_silent
  | awaiting lead =>
      simp only [modifierMove]
      split
      · exact complain_silent
      · split
        · exact complain_silent
        · exact ⟨rfl, rfl⟩

theorem repeatMove_silent : (repeatMove depth slot rest).Silent := by
  unfold repeatMove
  split
  · split
    · exact Option.some_ne_none _
    · exact ⟨rfl, rfl⟩
  · exact complain_silent

theorem collectMove_silent : (collectMove depth slot rest).Silent := by
  cases slot with
  | awaiting => exact complain_silent
  | filled =>
      simp only [collectMove]
      split
      · exact complain_silent
      · exact ⟨rfl, rfl⟩

theorem keywordMove_silent (keyword : Keyword) (written : String) :
    (keywordMove depth slot keyword written rest).Silent := by
  cases keyword with
  | orElse | optionally | after | negated => exact modifierMove_silent _
  | anyOf | noneOf | startOfText | endOfText => exact constructMove_silent fun _ => ⟨rfl, rfl⟩
  | times => exact repeatMove_silent
  | collectAs => exact collectMove_silent
  | anything | digit | forever | space | upTo | whitespace => exact complain_silent

theorem wordMove_silent : (wordMove depth slot rest).Silent := by
  simp only [wordMove]
  split
  · exact keywordMove_silent _ _
  · exact constructMove_silent fun _ => ⟨rfl, rfl⟩

theorem lineMove_silent : (lineMove depth slot rest).Silent := by
  unfold lineMove
  split
  · exact endMove_silent complain_silent
  · split
    · exact endMove_silent ⟨rfl, rfl⟩
    · split
      · exact endMove_silent closingMove_silent
      · split
        · exact ⟨rfl, rfl⟩
        · split
          · exact constructMove_silent fun lead => literalMove_silent lead
          · split
            · exact openingMove_silent
            · split
              · exact wordMove_silent
              · exact complain_silent

theorem elementMove_silent (owner : Owner) : (elementMove owner rest).Silent := by
  unfold elementMove
  split
  · exact Option.some_ne_none _
  · split
    · exact ⟨rfl, rfl⟩
    · cases owner <;> exact ⟨rfl, rfl⟩

theorem barsMove_cases (edit : Edit) (next : Place) (rest : List Char) :
    (∃ fault, barsMove edit next rest = .stop [] (some fault)) ∨
      ∃ after, barsMove edit next rest = .go [edit] next after := by
  unfold barsMove
  split
  · exact Or.inr ⟨_, rfl⟩
  · exact Or.inl ⟨_, rfl⟩

theorem rulesMove_silent : (rulesMove depth rest).Silent := by
  unfold rulesMove
  split
  · exact complain_silent
  · split
    · split
      · rcases barsMove_cases .endPattern (.top none) _ with ⟨fault, moved⟩ | ⟨after, moved⟩
        · rw [moved]
          exact Option.some_ne_none _
        · rw [moved]
          exact ⟨rfl, rfl⟩
      · exact complain_silent
    · split
      · exact ⟨rfl, rfl⟩
      · split
        · exact closingMove_silent
        · exact lineMove_silent

theorem openingBars_defines (pending : Option String) (rest : List Char) :
    (barsMove (.beginPattern pending) (.rules 0) rest).Defines (.top pending) := by
  rcases barsMove_cases (.beginPattern pending) (.rules 0) rest with ⟨fault, moved⟩ | ⟨after, moved⟩
  · rw [moved]
    intro noFault
    cases noFault
  · rw [moved]
    refine Or.inr ⟨?_, rfl⟩
    cases pending <;> rfl

/-- The elements of a charset, behind its name. -/
theorem charset_defines {move : Move} {name : String} (silent : move.Silent) :
    (move.behind [.beginCharset name]).Defines (.top (some name)) := by
  cases move with
  | stop edits fault => exact fun noFault => absurd noFault silent
  | go edits next after =>
      refine Or.inr ⟨?_, silent.2⟩
      rw [givenNames_append, silent.1]
      rfl
  | declare => exact silent

theorem complain_defines {complaint : Complaint} {place : Place} :
    (Move.complain complaint rest).Defines place := by
  intro noFault
  cases noFault

/-- Only the move over a declaration looks at the names before it, and only it declares. -/
theorem topMove_cases (pending : Option String) (rest : List Char) :
    (∃ tail, ∀ declared, topMove declared pending rest = declarationMove declared pending tail) ∨
      ∃ move, (∀ declared, topMove declared pending rest = move) ∧ move.Defines (.top pending) := by
  unfold topMove
  cases skipBlanks rest with
  | nil =>
      cases pending with
      | none => exact Or.inr ⟨_, fun _ => rfl, fun _ => ⟨rfl, rfl⟩⟩
      | some name => exact Or.inr ⟨_, fun _ => rfl, complain_defines⟩
  | cons character tail =>
      by_cases declares : character = '@'
      · exact Or.inl ⟨tail, fun _ => if_pos declares⟩
      · refine Or.inr ⟨_, fun _ => if_neg declares, ?_⟩
        split
        · exact openingBars_defines pending tail
        · split
          · exact Or.inl ⟨rfl, rfl⟩
          · cases pending with
            | none => exact complain_defines
            | some name => exact charset_defines (elementMove_silent .charset)

theorem move_cases (place : Place) (rest : List Char) :
    (∃ pending tail, place = .top pending ∧
      ∀ declared, place.move declared rest = declarationMove declared pending tail) ∨
      ∃ move, (∀ declared, place.move declared rest = move) ∧ move.Defines place := by
  cases place with
  | rules => exact Or.inr ⟨_, fun _ => rfl, rulesMove_silent.defines rfl⟩
  | line => exact Or.inr ⟨_, fun _ => rfl, lineMove_silent.defines rfl⟩
  | elements owner => exact Or.inr ⟨_, fun _ => rfl, (elementMove_silent owner).defines rfl⟩
  | top pending =>
      rcases topMove_cases pending rest with ⟨tail, declares⟩ | others
      · exact Or.inl ⟨pending, tail, rfl, declares⟩
      · exact Or.inr others

/-! ## Declarations -/

/-- A declaration is refused, or gives a name that was not declared before and that any other names
may have been declared before. -/
theorem declarationMove_cases (declared : List String) (pending : Option String) :
    (∃ fault, declarationMove declared pending rest = .stop [] (some fault)) ∨
      ∃ after, pending = none ∧ word rest ∉ declared ∧ ∀ other, word rest ∉ other →
        declarationMove other pending rest = .declare (word rest) after := by
  cases pending with
  | some name => exact Or.inl ⟨_, rfl⟩
  | none =>
      simp only [declarationMove]
      split
      · exact Or.inl ⟨_, rfl⟩
      · split
        · exact Or.inl ⟨_, rfl⟩
        · split
          · exact Or.inl ⟨_, rfl⟩
          · split
            · exact Or.inl ⟨_, rfl⟩
            · rename_i free
              split
              · rename_i after _
                rw [Bool.or_eq_true, not_or, Bool.not_eq_true, List.contains_iff_mem] at free
                refine Or.inr ⟨after, trivial, free.2, fun other unused => ?_⟩
                rw [if_neg (by simp [free.1, unused])]
              · exact Or.inl ⟨_, rfl⟩

section Among

variable {declared : List String} {place next : Place} {after : List Char} {edits : List Edit}

/-- What names that have been declared can do to a move: nothing, or refuse a declaration, or let
one pass that gives another name. -/
theorem move_among (place : Place) (rest : List Char) (declared : List String) :
    ((∀ other, place.move other rest = place.move declared rest) ∧
      (place.move declared rest).Defines place) ∨
    (∃ fault, place.move declared rest = .stop [] (some fault)) ∨
    ∃ name after, place = .top none ∧ name ∉ declared ∧
      place.move declared rest = .declare name after ∧
      ∀ other, name ∉ other → place.move other rest = .declare name after := by
  rcases place.move_cases rest with ⟨pending, tail, rfl, declares⟩ | ⟨move, same, defines⟩
  · refine Or.inr ?_
    simp only [declares]
    rcases declarationMove_cases declared pending with ⟨fault, refused⟩ | ⟨after, rfl, unused, named⟩
    · exact Or.inl ⟨fault, refused⟩
    · exact Or.inr ⟨word tail, after, rfl, unused, named declared unused, named⟩
  · rw [same declared]
    exact Or.inl ⟨same, defines⟩

/-- A move that goes on does so whatever has been declared. -/
theorem go_among (moved : place.move declared rest = .go edits next after) :
    (∀ other, place.move other rest = .go edits next after) ∧
      ((edits = [] ∧ next = place) ∨
        (givenNames edits = place.pending?.toList ∧ next.pending? = none)) := by
  rcases place.move_among rest declared with
    ⟨same, defines⟩ | ⟨fault, refused⟩ | ⟨name, behind, _, _, declares, _⟩
  · rw [moved] at same defines
    exact ⟨same, defines⟩
  · cases moved.symm.trans refused
  · cases moved.symm.trans declares

theorem stop_among (moved : place.move declared rest = .stop edits none) :
    (∀ other, place.move other rest = .stop edits none) ∧ edits = [] ∧ place = .top none := by
  rcases place.move_among rest declared with
    ⟨same, defines⟩ | ⟨fault, refused⟩ | ⟨name, behind, _, _, declares, _⟩
  · rw [moved] at same defines
    exact ⟨same, defines rfl⟩
  · cases moved.symm.trans refused
  · cases moved.symm.trans declares

/-- A name that is declared was not declared before, and no other names would matter. -/
theorem declare_among {name : String} (moved : place.move declared rest = .declare name after) :
    place = .top none ∧ name ∉ declared ∧
      ∀ other, name ∉ other → place.move other rest = .declare name after := by
  rcases place.move_among rest declared with
    ⟨_, defines⟩ | ⟨fault, refused⟩ | ⟨given, behind, atTop, unused, declares, others⟩
  · rw [moved] at defines
    exact absurd defines id
  · cases moved.symm.trans refused
  · cases moved.symm.trans declares
    exact ⟨atTop, unused, others⟩

end Among

end Place

/-! ## Readings -/

namespace Reads

variable {declared new : List String} {place : Place} {rest : List Char} {edits : List Edit}

/-- The edits of a reading give the name that waits and then the names that are declared. -/
theorem givenNames_eq (reads : Reads declared place rest edits new) :
    givenNames edits = place.pending?.toList ++ new := by
  induction reads with
  | ended moved =>
      obtain ⟨_, rfl, rfl⟩ := Place.stop_among moved
      rfl
  | goes moved _ inductionHypothesis =>
      rw [givenNames_append, inductionHypothesis]
      rcases (Place.go_among moved).2 with ⟨rfl, rfl⟩ | ⟨given, noName⟩
      · rfl
      · rw [given, noName]
        rfl
  | declares moved _ inductionHypothesis =>
      obtain ⟨rfl, _, _⟩ := Place.declare_among moved
      exact inductionHypothesis

/-- No name is declared twice, and none that was declared before. -/
theorem fresh (reads : Reads declared place rest edits new) :
    new.Nodup ∧ ∀ name ∈ new, name ∉ declared := by
  induction reads with
  | ended => simp
  | goes _ _ inductionHypothesis => exact inductionHypothesis
  | @declares declared new place rest after name later moved _ inductionHypothesis =>
      obtain ⟨distinct, unused⟩ := inductionHypothesis
      obtain ⟨_, isNew, _⟩ := Place.declare_among moved
      refine ⟨List.nodup_cons.2 ⟨fun again => unused name again List.mem_cons_self, distinct⟩, ?_⟩
      intro other member
      rcases List.mem_cons.1 member with rfl | inLater
      · exact isNew
      · exact fun before => unused other inLater (List.mem_cons_of_mem _ before)

/-- Names that the reading does not declare make no difference to it. -/
theorem among (reads : Reads declared place rest edits new) {other : List String}
    (apart : ∀ name ∈ new, name ∉ other) : Reads other place rest edits new := by
  induction reads generalizing other with
  | ended moved => exact .ended ((Place.stop_among moved).1 other)
  | goes moved _ inductionHypothesis =>
      exact .goes ((Place.go_among moved).1 other) (inductionHypothesis apart)
  | @declares declared new place rest after name later moved behind inductionHypothesis =>
      obtain ⟨_, _, moves⟩ := Place.declare_among moved
      refine .declares (moves other (apart name List.mem_cons_self)) (inductionHypothesis ?_)
      intro later member before
      rcases List.mem_cons.1 before with rfl | inOther
      · exact behind.fresh.2 later member List.mem_cons_self
      · exact apart later (List.mem_cons_of_mem _ member) inOther

end Reads

/-- A text that is read without a fault declares the names that its edits give, each once. -/
theorem reads_of_reading {source : List Char} (noFault : (Reading.ofText source).fault = none) :
    Reads [] (.top none) source (Reading.ofText source).edits
      (givenNames (Reading.ofText source).edits) := by
  obtain ⟨new, reads⟩ := Reading.reads_of_onward noFault
  rw [show givenNames (Reading.ofText source).edits = new from reads.givenNames_eq]
  exact reads

/-- Behind other names a text says the same, if it declares none of them. -/
theorem onward_among {declared : List String} {source : List Char}
    (noFault : (Reading.ofText source).fault = none)
    (apart : ∀ name ∈ givenNames (Reading.ofText source).edits, name ∉ declared) :
    Reading.onward declared (.top none) source = Reading.ofText source := by
  have reads := reads_of_reading noFault
  rw [(reads.among apart).onward_eq, Reading.ofText, reads.onward_eq]

/-- A text that can be read behind other names can be read alone, and declares none of them. -/
theorem apart_of_onward {declared : List String} {source : List Char}
    (noFault : (Reading.onward declared (.top none) source).fault = none) :
    (Reading.ofText source).fault = none ∧
      ∀ name ∈ givenNames (Reading.ofText source).edits, name ∉ declared := by
  obtain ⟨new, reads⟩ := Reading.reads_of_onward noFault
  have alone : Reading.ofText source = ⟨(Reading.onward declared (.top none) source).edits, none⟩ :=
    (reads.among fun _ _ => List.not_mem_nil).onward_eq
  have names : givenNames (Reading.onward declared (.top none) source).edits = new :=
    reads.givenNames_eq
  rw [alone]
  exact ⟨rfl, names.symm ▸ reads.fresh.2⟩

end PlainPattern
