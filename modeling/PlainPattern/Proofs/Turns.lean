import PlainPattern.Proofs.ElementLists
import PlainPattern.Proofs.ErrorPlaces

/-!
Contract: every turn of a loop over schema text takes some of the text, or is the last of its loop.

Owns: the loops of a reader and the turns that they make in one move (`Place.turns`) and in a whole
reading (`Reading.turns`); what holds of the turns of one move (`Place.turnsFrom_turns`,
`Place.decides_of_mem_turns`, `Turn.Decides.behind`); and the main result
`reading_always_advances`. Loops over rules and rule lines lie inside one another as blocks do, and
it is the turns of all depths together that advance.

Does not own: what is read in a turn.
-/

set_option autoImplicit false

namespace PlainPattern

open Text Lexeme Element

/-! ## Turns -/

/-- The loops of a reader: over the symbols of a text, over the rules of a pattern or a block, over
the words of a rule line, over the elements of a list, and over the characters of a literal. -/
inductive Loop where
  | symbols
  | rules
  | line
  | elements
  | literal
deriving DecidableEq, Repr

/-- A turn of a loop, and the text that is unread when it begins. -/
structure Turn where
  loop : Loop
  rest : List Char
deriving DecidableEq, Repr

/-- A shorter final stretch of a text. -/
def Behind (after rest : List Char) : Prop :=
  after <:+ rest ∧ after.length < rest.length

/-- A later turn does not go back, and goes on if it belongs to the same loop. -/
def Turn.Precedes (earlier later : Turn) : Prop :=
  later.rest <:+ earlier.rest ∧ (later.loop = earlier.loop → Behind later.rest earlier.rest)

/-- Turns in order that begin nowhere in front of this text. -/
structure TurnsFrom (rest : List Char) (turns : List Turn) : Prop where
  inside : ∀ turn ∈ turns, turn.rest <:+ rest
  ordered : turns.Pairwise Turn.Precedes

theorem Behind.trans {last after rest : List Char} (suffix : last <:+ after)
    (behind : Behind after rest) : Behind last rest :=
  ⟨suffix.trans behind.1, Nat.lt_of_le_of_lt suffix.length_le behind.2⟩

theorem behind_cons (character : Char) (tail : List Char) : Behind tail (character :: tail) :=
  ⟨List.suffix_cons _ _, Nat.lt_succ_self _⟩

namespace TurnsFrom

variable {rest after : List Char} {loop : Loop} {turns later : List Turn}

theorem nil (rest : List Char) : TurnsFrom rest [] :=
  ⟨by simp, .nil⟩

/-- Behind the text of a turn any loop may go on. -/
theorem cons_of_behind (turnsFrom : TurnsFrom after turns) (behind : Behind after rest) :
    TurnsFrom rest (⟨loop, rest⟩ :: turns) where
  inside := List.forall_mem_cons.2
    ⟨List.suffix_refl rest, fun turn member => (turnsFrom.inside turn member).trans behind.1⟩
  ordered := List.pairwise_cons.2 ⟨fun turn member =>
    have onward := behind.trans (turnsFrom.inside turn member)
    ⟨onward.1, fun _ => onward⟩, turnsFrom.ordered⟩

/-- Inside the text of a turn another loop may begin. -/
theorem cons_of_other (turnsFrom : TurnsFrom after turns) (suffix : after <:+ rest)
    (other : ∀ turn ∈ turns, turn.loop ≠ loop) : TurnsFrom rest (⟨loop, rest⟩ :: turns) where
  inside := List.forall_mem_cons.2
    ⟨List.suffix_refl rest, fun turn member => (turnsFrom.inside turn member).trans suffix⟩
  ordered := List.pairwise_cons.2 ⟨fun turn member =>
    ⟨(turnsFrom.inside turn member).trans suffix, fun same => absurd same (other turn member)⟩,
    turnsFrom.ordered⟩

theorem single (loop : Loop) (rest : List Char) : TurnsFrom rest [⟨loop, rest⟩] :=
  (nil rest).cons_of_other (List.suffix_refl rest) (by simp)

theorem append (first : TurnsFrom rest turns) (second : TurnsFrom after later)
    (behind : ∀ turn ∈ turns, Behind after turn.rest) (suffix : after <:+ rest) :
    TurnsFrom rest (turns ++ later) where
  inside := List.forall_mem_append.2
    ⟨first.inside, fun turn member => (second.inside turn member).trans suffix⟩
  ordered := List.pairwise_append.2 ⟨first.ordered, second.ordered, fun _ earlier turn member =>
    have onward := (behind _ earlier).trans (second.inside turn member)
    ⟨onward.1, fun _ => onward⟩⟩

end TurnsFrom

/-! ## Literals -/

namespace Element

/-- Where the next turn over a literal begins, unless this one ends the literal or fails. -/
def literalNext? : List Char → Option (List Char)
  | [] => none
  | character :: tail =>
      if character = '\n' ∨ character = ')' ∨ character = '$' then none
      else if character = '\\' then (escape tail).toOption.map Prod.snd
      else if isLiteralCharacter character then some tail
      else none

theorem behind_of_literalNext? {rest after : List Char} (next : literalNext? rest = some after) :
    Behind after rest := by
  unfold literalNext? at next
  split at next
  · cases next
  · rename_i character tail
    split at next
    · cases next
    · split at next
      · cases escaped : escape tail with
        | error fault => simp [escaped, Except.toOption] at next
        | ok meant =>
            simp only [escaped, Except.toOption, Option.map_some, Option.some.injEq] at next
            exact (behind_cons character tail).trans (next ▸ escape_suffix escaped)
      · split at next
        · cases next
          exact behind_cons _ _
        · cases next

/-- The turns over the characters of a literal. -/
def literalTurns (rest : List Char) : List Turn :=
  match _next : literalNext? rest with
  | none => [⟨.literal, rest⟩]
  | some after => ⟨.literal, rest⟩ :: literalTurns after
termination_by rest.length
decreasing_by exact (behind_of_literalNext? _next).2

/-- A turn that neither ends a literal nor fails leaves the rest of it to the next one. -/
theorem literalBody_of_next {rest after : List Char} (next : literalNext? rest = some after)
    (text : List Char) : ∃ more, literalBody text rest = literalBody (text ++ more) after := by
  unfold literalNext? at next
  split at next
  · cases next
  · rename_i character tail
    split at next
    · cases next
    · rename_i goesOn
      obtain ⟨noNewline, noEnd, noVariable⟩ := by simpa only [not_or] using goesOn
      rw [literalBody]
      simp only [noNewline, noEnd, noVariable, if_false]
      split at next
      · rename_i isEscape
        cases escaped : escape tail with
        | error fault => simp [escaped, Except.toOption] at next
        | ok meant =>
            simp only [escaped, Except.toOption, Option.map_some, Option.some.injEq] at next
            refine ⟨[meant.1], ?_⟩
            rw [if_pos isEscape, ← next]
      · rename_i noEscape
        split at next
        · rename_i isLiteral
          cases next
          exact ⟨[character], by rw [if_neg noEscape, if_pos isLiteral]⟩
        · cases next

theorem behind_of_literalBody {text rest after : List Char} {criterion : Criterion}
    (read : literalBody text rest = .ok (criterion, after)) : Behind after rest := by
  unfold literalBody at read
  split at read
  · cases read
  · rename_i character tail
    have inTail {further : List Char} (suffix : further <:+ tail) :
        Behind further (character :: tail) :=
      (behind_cons character tail).trans suffix
    repeat' split at read
    all_goals first
      | (cases read; exact inTail (List.suffix_refl _))
      | exact inTail (variableName_suffix read)
      | exact inTail ((literalBody_suffix _ _ read).trans (escape_suffix ‹_›))
      | exact inTail (literalBody_suffix _ _ read)
      | cases read

theorem loop_of_mem_literalTurns (rest : List Char) :
    ∀ turn ∈ literalTurns rest, turn.loop = .literal := by
  fun_induction literalTurns rest with
  | case1 => simp
  | case2 _ _ _ inductionHypothesis => exact List.forall_mem_cons.2 ⟨rfl, inductionHypothesis⟩

theorem turnsFrom_literalTurns (rest : List Char) : TurnsFrom rest (literalTurns rest) := by
  fun_induction literalTurns rest with
  | case1 => exact .single _ _
  | case2 _ _ next inductionHypothesis =>
      exact inductionHypothesis.cons_of_behind (behind_of_literalNext? next)

/-- Every turn over a literal reads what is left of it. -/
theorem literalBody_of_mem_literalTurns {rest : List Char} {turn : Turn}
    (member : turn ∈ literalTurns rest) (text : List Char) :
    ∃ more, literalBody text rest = literalBody (text ++ more) turn.rest := by
  fun_induction literalTurns rest generalizing text with
  | case1 =>
      obtain rfl := List.mem_singleton.1 member
      exact ⟨[], by rw [List.append_nil]⟩
  | case2 rest after next inductionHypothesis =>
      rcases List.mem_cons.1 member with rfl | later
      · exact ⟨[], by rw [List.append_nil]⟩
      · obtain ⟨taken, same⟩ := literalBody_of_next next text
        obtain ⟨more, sameLater⟩ := inductionHypothesis later (text ++ taken)
        exact ⟨taken ++ more, by rw [same, sameLater, List.append_assoc]⟩

end Element

/-! ## Moves -/

/-- What a move leaves unread, unless it stops. -/
def Move.unread? : Move → Option (List Char)
  | .stop _ _ => none
  | .go _ _ after => some after
  | .declare _ after => some after

theorem Move.Advances.behind {rest after : List Char} {move : Move} (advances : move.Advances rest)
    (unread : move.unread? = some after) : Behind after rest := by
  cases move with
  | stop => cases unread
  | go =>
      cases unread
      exact advances
  | declare =>
      cases unread
      exact advances

theorem Move.unread?_behind (edits : List Edit) (move : Move) :
    (move.behind edits).unread? = move.unread? := by
  cases move <;> rfl

theorem Move.behind_nil (move : Move) : move.behind [] = move := by
  cases move <;> rfl

namespace Place

/-- The turns of a move inside a rule line. Where the text or a block ends, so does the line, and
the rules around it have another turn at the same place. -/
def lineTurns (slot : Slot) (rest : List Char) : List Turn :=
  ⟨.line, rest⟩ ::
    match slot, skipInlineBlanks rest with
    | .filled, [] => [⟨.rules, []⟩]
    | .filled, '\x7d' :: tail => [⟨.rules, '\x7d' :: tail⟩]
    | .awaiting _, '(' :: tail => literalTurns tail
    | _, _ => []

/-- The turns of a move in front of an element. -/
def elementsTurns (rest : List Char) : List Turn :=
  ⟨.elements, rest⟩ ::
    match skipInlineBlanks rest with
    | '(' :: tail => literalTurns tail
    | _ => []

/-- The turns of the loops that a move from here passes through. -/
def turns : Place → List Char → List Turn
  | .top pending, rest =>
      ⟨.symbols, rest⟩ ::
        match (Place.top pending).listed? rest with
        | some (_, atElement) => elementsTurns atElement
        | none => []
  | .rules _, rest =>
      ⟨.rules, rest⟩ ::
        match skipBlanks rest with
        | [] => []
        | character :: tail =>
            if character = '|' ∨ character = '#' ∨ character = '\x7d' then []
            else lineTurns (.awaiting {}) (character :: tail)
  | .line _ slot, rest => lineTurns slot rest
  | .elements _, rest => elementsTurns rest

end Place

/-- A move is what its loops do in these turns, with the text that is unread there. -/
def Turn.Decides (declared : List String) (move : Move) (turn : Turn) : Prop :=
  match turn.loop with
  | .symbols => ∃ pending, move = Place.topMove declared pending turn.rest
  | .rules => ∃ depth, move = Place.rulesMove depth turn.rest
  | .line => ∃ depth slot, move = Place.lineMove depth slot turn.rest
  | .elements => ∃ edits owner, move = (Place.elementMove owner turn.rest).behind edits
  | .literal => ∃ text,
      match literalBody text turn.rest with
      | .error fault => ∃ edits, move = .stop edits (some fault)
      | .ok (_, after) => ∃ left, move.unread? = some left ∧ left <:+ after

namespace Turn.Decides

variable {declared : List String} {move : Move} {turn : Turn}

/-- What a move leaves unread is behind all its turns. -/
theorem behind {after : List Char} (decides : turn.Decides declared move)
    (unread : move.unread? = some after) : Behind after turn.rest := by
  obtain ⟨loop, rest⟩ := turn
  cases loop with
  | symbols =>
      obtain ⟨pending, rfl⟩ := decides
      exact (Place.topMove_advances declared pending rest).behind unread
  | rules =>
      obtain ⟨depth, rfl⟩ := decides
      exact (Place.rulesMove_advances depth rest).behind unread
  | line =>
      obtain ⟨depth, slot, rfl⟩ := decides
      exact (Place.lineMove_advances depth slot rest).behind unread
  | elements =>
      obtain ⟨edits, owner, rfl⟩ := decides
      rw [Move.unread?_behind] at unread
      exact (Place.elementMove_advances owner rest).behind unread
  | literal =>
      obtain ⟨text, outcome⟩ := decides
      cases read : literalBody text rest with
      | error fault =>
          simp only [read] at outcome
          obtain ⟨edits, rfl⟩ := outcome
          cases unread
      | ok taken =>
          simp only [read] at outcome
          obtain ⟨left, isLeft, suffix⟩ := outcome
          obtain rfl : left = after := Option.some.inj (isLeft.symm.trans unread)
          exact (behind_of_literalBody read).trans suffix

/-- A fault is found in none of its turns in front of the text that is unread there. -/
theorem fault_suffix {edits : List Edit} {fault : Fault}
    (decides : turn.Decides declared (.stop edits (some fault))) : fault.rest <:+ turn.rest := by
  have inMove {move : Move} (inside : move.FaultsIn turn.rest)
      (stops : Move.stop edits (some fault) = move) : fault.rest <:+ turn.rest := by
    rw [← stops] at inside
    exact inside
  obtain ⟨loop, rest⟩ := turn
  cases loop with
  | symbols =>
      obtain ⟨pending, stops⟩ := decides
      exact inMove (Place.topMove_faultsIn declared pending rest) stops
  | rules =>
      obtain ⟨depth, stops⟩ := decides
      exact inMove (Place.rulesMove_faultsIn depth rest) stops
  | line =>
      obtain ⟨depth, slot, stops⟩ := decides
      exact inMove (Place.lineMove_faultsIn depth slot rest) stops
  | elements =>
      obtain ⟨more, owner, stops⟩ := decides
      exact inMove ((Place.elementMove_faultsIn owner rest).behind more) stops
  | literal =>
      obtain ⟨text, outcome⟩ := decides
      have inside := literalBody_faultsIn text rest
      cases read : literalBody text rest with
      | error found =>
          simp only [read] at outcome
          obtain ⟨_, stops⟩ := outcome
          cases stops
          exact inside fault read
      | ok taken =>
          simp only [read] at outcome
          obtain ⟨left, isLeft, _⟩ := outcome
          cases isLeft

end Turn.Decides

namespace Place

variable {declared : List String} {turn : Turn}

/-! ## What decides a move -/

/-- The turns over a literal decide a move that reads it from its start. -/
theorem decides_of_literal {move : Move} {tail : List Char}
    (fails : ∀ fault, literal tail = .error fault → ∃ edits, move = .stop edits (some fault))
    (reads : ∀ criterion after, literal tail = .ok (criterion, after) →
      ∃ left, move.unread? = some left ∧ left <:+ after)
    (member : turn ∈ literalTurns tail) : turn.Decides declared move := by
  obtain ⟨more, same⟩ := literalBody_of_mem_literalTurns member []
  have outcome : ∃ text, match literalBody text turn.rest with
      | .error fault => ∃ edits, move = .stop edits (some fault)
      | .ok (_, after) => ∃ left, move.unread? = some left ∧ left <:+ after := by
    refine ⟨[] ++ more, ?_⟩
    rw [← same]
    cases read : literalBody [] tail with
    | error fault => exact fails fault read
    | ok taken => exact reads taken.1 taken.2 read
  simpa only [Turn.Decides, loop_of_mem_literalTurns tail turn member] using outcome

theorem decides_of_mem_elementsTurns (edits : List Edit) (owner : Owner) {rest : List Char}
    (member : turn ∈ elementsTurns rest) :
    turn.Decides declared ((elementMove owner rest).behind edits) := by
  rcases List.mem_cons.1 member with rfl | inElement
  · exact ⟨edits, owner, rfl⟩
  · split at inElement
    · rename_i tail atBracket
      refine decides_of_literal (fun fault failed => ⟨edits ++ [], ?_⟩)
        (fun criterion after read => ?_) inElement
      · have found : element (skipInlineBlanks rest) = .error fault := by
          rw [atBracket]
          exact failed
        simp only [elementMove, found, Move.behind]
      · have found : element (skipInlineBlanks rest) = .ok (criterion, after) := by
          rw [atBracket]
          exact read
        have skipped := skipInlineBlanks_suffix after
        rw [Move.unread?_behind]
        simp only [elementMove, found]
        split
        · rename_i other atComma
          exact ⟨other, rfl, ((List.suffix_cons _ _).trans (atComma ▸ skipped))⟩
        · exact ⟨_, rfl, skipped⟩
    · cases inElement

theorem decides_of_mem_lineTurns (depth : Nat) (slot : Slot) {rest : List Char}
    (member : turn ∈ lineTurns slot rest) : turn.Decides declared (lineMove depth slot rest) := by
  rcases List.mem_cons.1 member with rfl | inLine
  · exact ⟨depth, slot, rfl⟩
  · split at inLine
    · rename_i atEnd
      obtain rfl := List.mem_singleton.1 inLine
      refine ⟨depth, ?_⟩
      unfold lineMove
      rw [atEnd]
      rfl
    · rename_i tail atBrace
      obtain rfl := List.mem_singleton.1 inLine
      refine ⟨depth, ?_⟩
      unfold lineMove
      rw [atBrace]
      rfl
    · rename_i lead tail atBracket
      have moves : lineMove depth (.awaiting lead) rest = literalMove depth lead tail := by
        unfold lineMove
        rw [atBracket]
        rfl
      rw [moves]
      refine decides_of_literal (fun fault failed => ⟨[.addRule lead true], ?_⟩)
        (fun criterion after read => ⟨after, ?_, List.suffix_refl after⟩) inLine
      · simp only [literalMove, failed]
      · simp only [literalMove, read, Move.unread?]
    · cases inLine

theorem rulesMove_of_line (depth : Nat) {rest tail : List Char} {character : Char}
    (atLine : skipBlanks rest = character :: tail)
    (isRule : ¬(character = '|' ∨ character = '#' ∨ character = '\x7d')) :
    rulesMove depth rest = lineMove depth (.awaiting {}) (character :: tail) := by
  obtain ⟨noBar, noComment, noBrace⟩ := by simpa only [not_or] using isRule
  unfold rulesMove
  rw [atLine]
  simp only [noBar, noComment, noBrace, if_false]

theorem topMove_of_listed (declared : List String) {pending : Option String} {owner : Owner}
    {rest atElement : List Char}
    (listed : (Place.top pending).listed? rest = some (owner, atElement)) :
    ∃ name, topMove declared pending rest =
      (elementMove .charset atElement).behind [.beginCharset name] := by
  cases pending with
  | none => cases listed
  | some name =>
      simp only [listed?] at listed
      split at listed
      · cases listed
      · rename_i character tail skipped
        split at listed
        · cases listed
        · rename_i other
          cases listed
          obtain ⟨noDeclaration, noBars, noComment⟩ := by simpa only [not_or] using other
          refine ⟨name, ?_⟩
          unfold topMove
          rw [skipped]
          simp only [noDeclaration, noBars, noComment, if_false]

theorem listed?_suffix {place : Place} {owner : Owner} {rest atElement : List Char}
    (listed : place.listed? rest = some (owner, atElement)) : atElement <:+ rest := by
  unfold listed? at listed
  split at listed
  · cases listed
    exact skipInlineBlanks_suffix _
  · split at listed
    · cases listed
    · rename_i skipped
      split at listed
      · cases listed
      · cases listed
        exact skipped ▸ skipBlanks_suffix _
  · cases listed

/-- Each turn of a move is what the move does there. -/
theorem decides_of_mem_turns (declared : List String) (place : Place) {rest : List Char}
    (member : turn ∈ place.turns rest) : turn.Decides declared (place.move declared rest) := by
  cases place with
  | top pending =>
      rcases List.mem_cons.1 member with rfl | inList
      · exact ⟨pending, rfl⟩
      · split at inList
        · rename_i owner atElement listed
          obtain ⟨name, moves⟩ := topMove_of_listed declared listed
          rw [move, moves]
          exact decides_of_mem_elementsTurns [.beginCharset name] .charset inList
        · cases inList
  | rules depth =>
      rcases List.mem_cons.1 member with rfl | inLine
      · exact ⟨depth, rfl⟩
      · split at inLine
        · cases inLine
        · rename_i character tail atLine
          split at inLine
          · cases inLine
          · rename_i isRule
            rw [move, rulesMove_of_line depth atLine isRule]
            exact decides_of_mem_lineTurns depth (.awaiting {}) inLine
  | line depth slot => exact decides_of_mem_lineTurns depth slot member
  | elements owner =>
      have decides : turn.Decides declared ((elementMove owner rest).behind []) :=
        decides_of_mem_elementsTurns [] owner member
      rwa [Move.behind_nil] at decides

/-! ## The order of the turns -/

theorem turnsFrom_elementsTurns (rest : List Char) : TurnsFrom rest (elementsTurns rest) := by
  unfold elementsTurns
  split
  · rename_i tail atBracket
    refine (turnsFrom_literalTurns tail).cons_of_other ?_ fun turn member => ?_
    · exact (List.suffix_cons _ _).trans (atBracket ▸ skipInlineBlanks_suffix rest)
    · simp [loop_of_mem_literalTurns tail turn member]
  · exact .single _ _

theorem turnsFrom_lineTurns (slot : Slot) (rest : List Char) :
    TurnsFrom rest (lineTurns slot rest) := by
  unfold lineTurns
  split
  · exact (TurnsFrom.single .rules []).cons_of_other List.nil_suffix (by simp)
  · rename_i tail atBrace
    exact (TurnsFrom.single .rules _).cons_of_other (atBrace ▸ skipInlineBlanks_suffix rest)
      (by simp)
  · rename_i tail atBracket
    refine (turnsFrom_literalTurns tail).cons_of_other ?_ fun turn member => ?_
    · exact (List.suffix_cons _ _).trans (atBracket ▸ skipInlineBlanks_suffix rest)
    · simp [loop_of_mem_literalTurns tail turn member]
  · exact .single _ _

theorem loop_of_mem_elementsTurns {rest : List Char} {turn : Turn}
    (member : turn ∈ elementsTurns rest) : turn.loop = .elements ∨ turn.loop = .literal := by
  rcases List.mem_cons.1 member with rfl | inElement
  · exact Or.inl rfl
  · split at inElement
    · exact Or.inr (loop_of_mem_literalTurns _ turn inElement)
    · cases inElement

/-- A line that has only begun does not end in the same move. -/
theorem loop_of_mem_lineTurns {lead : Lead} {rest : List Char} {turn : Turn}
    (member : turn ∈ lineTurns (.awaiting lead) rest) :
    turn.loop = .line ∨ turn.loop = .literal := by
  rcases List.mem_cons.1 member with rfl | inLine
  · exact Or.inl rfl
  · split at inLine
    · rename_i isFilled _
      cases isFilled
    · rename_i isFilled _
      cases isFilled
    · exact Or.inr (loop_of_mem_literalTurns _ turn inLine)
    · cases inLine

theorem turnsFrom_turns (place : Place) (rest : List Char) : TurnsFrom rest (place.turns rest) := by
  cases place with
  | top pending =>
      rw [turns]
      split
      · rename_i owner atElement listed
        refine (turnsFrom_elementsTurns atElement).cons_of_other (listed?_suffix listed)
          fun turn member => ?_
        rcases loop_of_mem_elementsTurns member with isLoop | isLoop <;> simp [isLoop]
      · exact .single _ _
  | rules depth =>
      rw [turns]
      split
      · exact .single _ _
      · rename_i character tail atLine
        split
        · exact .single _ _
        · refine (turnsFrom_lineTurns _ _).cons_of_other (atLine ▸ skipBlanks_suffix rest)
            fun turn member => ?_
          rcases loop_of_mem_lineTurns member with isLoop | isLoop <;> simp [isLoop]
  | line depth slot => exact turnsFrom_lineTurns slot rest
  | elements owner => exact turnsFrom_elementsTurns rest

end Place

/-! ## Readings -/

namespace Reading

/-- All turns of a reading from a place. -/
def turnsOnward (declared : List String) (place : Place) (rest : List Char) : List Turn :=
  (stations declared place rest).flatMap fun station => station.place.turns station.rest

/-- All turns of the loops over a text. -/
def turns (source : List Char) : List Turn :=
  turnsOnward [] (.top none) source

/-- The induction is on the moves: what one of them leaves unread is behind all its turns. -/
theorem turnsFrom_turnsOnward (declared : List String) (place : Place) (rest : List Char) :
    TurnsFrom rest (turnsOnward declared place rest) := by
  unfold turnsOnward
  fun_induction stations declared place rest with
  | case1 declared place rest edits fault moved =>
      simpa only [List.flatMap_cons, List.flatMap_nil, List.append_nil] using
        place.turnsFrom_turns rest
  | case2 declared place rest edits next after moved inductionHypothesis =>
      have advances := place.move_advances declared rest
      rw [moved] at advances
      refine (place.turnsFrom_turns rest).append inductionHypothesis (fun turn member => ?_)
        advances.1
      exact (moved ▸ Place.decides_of_mem_turns declared place member).behind rfl
  | case3 declared place rest name after moved inductionHypothesis =>
      have advances := place.move_advances declared rest
      rw [moved] at advances
      refine (place.turnsFrom_turns rest).append inductionHypothesis (fun turn member => ?_)
        advances.1
      exact (moved ▸ Place.decides_of_mem_turns declared place member).behind rfl

theorem fault_suffix_of_mem_turnsOnward {declared : List String} {place : Place} {rest : List Char}
    {fault : Fault} (failed : (onward declared place rest).fault = some fault) :
    ∀ turn ∈ turnsOnward declared place rest, fault.rest <:+ turn.rest := by
  unfold turnsOnward
  fun_induction stations declared place rest with
  | case1 declared place rest edits found moved =>
      rw [onward_stop moved] at failed
      obtain rfl : found = some fault := failed
      intro turn member
      rw [List.flatMap_cons, List.flatMap_nil, List.append_nil] at member
      exact (moved ▸ Place.decides_of_mem_turns declared place member).fault_suffix
  | case2 declared place rest edits next after moved inductionHypothesis =>
      rw [onward_go moved] at failed
      refine List.forall_mem_append.2 ⟨fun turn member => ?_, inductionHypothesis failed⟩
      exact (fault_suffix failed).trans
        ((moved ▸ Place.decides_of_mem_turns declared place member).behind rfl).1
  | case3 declared place rest name after moved inductionHypothesis =>
      rw [onward_declare moved] at failed
      refine List.forall_mem_append.2 ⟨fun turn member => ?_, inductionHypothesis failed⟩
      exact (fault_suffix failed).trans
        ((moved ▸ Place.decides_of_mem_turns declared place member).behind rfl).1

/-- The first turn of a reading is over its symbols, with all of the text ahead. -/
theorem head?_turns (source : List Char) : (turns source).head? = some ⟨.symbols, source⟩ := by
  unfold turns turnsOnward
  rw [stations]
  split <;> rfl

end Reading

/-! ## The cursor -/

/-- How many characters stand before the text that is unread in a turn. -/
def Turn.cursor (source : List Char) (turn : Turn) : Nat :=
  source.length - turn.rest.length

namespace TurnsFrom

variable {source : List Char} {turns : List Turn}

theorem cursors (turnsFrom : TurnsFrom source turns) :
    turns.Pairwise fun earlier later =>
      earlier.cursor source ≤ later.cursor source ∧
        (later.loop = earlier.loop → earlier.cursor source < later.cursor source) := by
  refine turnsFrom.ordered.imp_of_mem fun {earlier later} earlierMember _ precedes => ?_
  have inside := (turnsFrom.inside earlier earlierMember).length_le
  unfold Turn.cursor
  refine ⟨Nat.sub_le_sub_left precedes.1.length_le _, fun same => ?_⟩
  have shorter := (precedes.2 same).2
  omega

/-- Texts that get shorter are no more than the first has characters, and one. -/
theorem length_le_of_shrinking {bound : Nat} (bounded : ∀ turn ∈ turns, turn.rest.length < bound)
    (shrinking : turns.Pairwise fun earlier later => later.rest.length < earlier.rest.length) :
    turns.length ≤ bound := by
  induction turns generalizing bound with
  | nil => exact Nat.zero_le _
  | cons turn later inductionHypothesis =>
      obtain ⟨below, laterShrinking⟩ := List.pairwise_cons.1 shrinking
      have fewer := inductionHypothesis below laterShrinking
      have first := bounded turn List.mem_cons_self
      rw [List.length_cons]
      omega

theorem countP_loop_le (turnsFrom : TurnsFrom source turns) (loop : Loop) :
    (turns.countP fun turn => decide (turn.loop = loop)) ≤ source.length + 1 := by
  have ofLoop {turn : Turn} (member : turn ∈ turns.filter fun turn => decide (turn.loop = loop)) :
      turn ∈ turns ∧ turn.loop = loop := by
    simpa using member
  rw [List.countP_eq_length_filter]
  refine length_le_of_shrinking (fun turn member => ?_) ?_
  · exact Nat.lt_succ_of_le (turnsFrom.inside turn (ofLoop member).1).length_le
  · refine (turnsFrom.ordered.filter _).imp_of_mem fun isEarlier isLater precedes => ?_
    exact (precedes.2 ((ofLoop isLater).2.trans (ofLoop isEarlier).2.symm)).2

end TurnsFrom

theorem SyntaxError.offset_ofFault (source : List Char) (fault : Fault) :
    (SyntaxError.ofFault source fault).location.offset = source.length - fault.rest.length := by
  obtain ⟨_, _, _, _, _, walked⟩ :=
    Location.exists_front (source.take (source.length - fault.rest.length))
  simp only [ofFault, walked, List.length_take]
  omega

/-- Whatever text is compiled, the reader passes over it once: it makes the moves from the stations
of the reading, and what is compiled are the edits of these moves and the fault that one of them
finds. In every turn of a loop the reader does what the move in question does there, with the text
behind a cursor that lies in the text. From one turn to a later one the cursor does not go back, and
between two turns of the same kind of loop, in whatever blocks they are, it goes on by at least one
character; so each kind has no more turns than the text has characters, and one. A syntax error is
found in front of no turn. -/
theorem reading_always_advances (source : String) :
    let text := source.toList
    let stations := Reading.stations [] (.top none) text
    let turns := Reading.turns text
    compile source = Reading.schema ⟨stations.flatMap fun station => station.move.edits,
      stations.findSome? fun station => station.move.fault?⟩ text ∧
    turns.head? = some ⟨.symbols, text⟩ ∧
    (∀ turn ∈ turns, turn.cursor text ≤ text.length ∧ text.drop (turn.cursor text) = turn.rest ∧
      ∃ station ∈ stations, ∀ declared,
        turn.Decides declared (station.place.move declared station.rest)) ∧
    (turns.Pairwise fun earlier later => earlier.cursor text ≤ later.cursor text ∧
      (later.loop = earlier.loop → earlier.cursor text < later.cursor text)) ∧
    (∀ loop, (turns.countP fun turn => decide (turn.loop = loop)) ≤ text.length + 1) ∧
    ∀ error, compile source = .error (.malformed error) →
      error.location.offset ≤ text.length ∧
        ∀ turn ∈ turns, turn.cursor text ≤ error.location.offset := by
  intro text stations turns
  have turnsFrom : TurnsFrom text turns := Reading.turnsFrom_turnsOnward [] (.top none) text
  refine ⟨?_, Reading.head?_turns text, fun turn member => ⟨Nat.sub_le _ _, ?_, ?_⟩,
    turnsFrom.cursors, turnsFrom.countP_loop_le, fun error malformed => ?_⟩
  · have moves := Reading.onward_eq_stations [] (.top none) text
    rw [compile, Reading.ofText, moves]
  · exact (List.suffix_iff_eq_drop.1 (turnsFrom.inside turn member)).symm
  · obtain ⟨station, isStation, inMove⟩ := List.mem_flatMap.1 member
    exact ⟨station, isStation, fun declared => Place.decides_of_mem_turns declared _ inMove⟩
  · obtain ⟨fault, failed, rfl⟩ := Reading.fault_of_schema malformed
    rw [SyntaxError.offset_ofFault]
    refine ⟨Nat.sub_le _ _, fun turn member => Nat.sub_le_sub_left ?_ _⟩
    exact (Reading.fault_suffix_of_mem_turnsOnward failed turn member).length_le

end PlainPattern
