import Mathlib.Data.Finset.Card
import PlainPattern.Proofs.CompiledTrees
import PlainPattern.Proofs.CycleReports
import PlainPattern.Proofs.Enumeration
import PlainPattern.Proofs.Settling

/-!
Contract: matching comes to an end unless patterns refer to each other in a circle.

Owns: the links along which an evaluation follows names, the depth from which on an evaluator is
certain (`Depths.certain`), and the rows of searches of a replacement. Three measures carry the main
result `matching_terminates`: along a link fewer names can be reached, from one round of a repeat to
the next less of the text is left, and a match moves the next search on.
-/

set_option autoImplicit false

namespace PlainPattern

open Evaluator

/-! ## Names that are followed -/

/-- No name that can be reached from here, this one included, leads back to itself. -/
def ReachesNoCycle (link : String → String → Prop) (name : String) : Prop :=
  ∀ other, Relation.ReflTransGen link name other → ¬Relation.TransGen link other other

theorem ReachesNoCycle.next {link : String → String → Prop} {name next : String}
    (finite : ReachesNoCycle link name) (linked : link name next) : ReachesNoCycle link next :=
  fun other reached => finite other (.head linked reached)

/-- From this depth on the evaluator of a name is the same, and it settles. -/
structure Certain (family : Nat → String → Evaluator) (depth : Nat) (name : String) : Prop where
  settled : Settled (family depth name)
  constant : ∀ deeper, depth ≤ deeper → family deeper name = family depth name

/-- Evaluators by name that look a name up and follow what they find one step less deep. `link`
leads to all the names on which the evaluator of what was found depends. -/
structure Depths {Found : Type} (look : String → Except LookupError Found)
    (evaluate : (String → Evaluator) → Found → Evaluator) (link : String → String → Prop)
    (defined : List String) (family : Nat → String → Evaluator) : Prop where
  atZero : ∀ name entry, family 0 name entry =
    match look name with
    | .error error => .undecided (.lookup error) entry
    | .ok _ => .undecided (.endlessReference name) entry
  atSucc : ∀ depth name entry, family (depth + 1) name entry =
    match look name with
    | .error error => .undecided (.lookup error) entry
    | .ok found => evaluate (family depth) found entry
  covers : ∀ name found, look name = .ok found → name ∈ defined
  settles : ∀ name found others, look name = .ok found →
    (∀ next, link name next → Settled (others next)) → Settled (evaluate others found)
  agrees : ∀ name found others more, look name = .ok found →
    (∀ next, link name next → others next = more next) → evaluate others found = evaluate more found

namespace Depths

variable {Found : Type} {look : String → Except LookupError Found}
  {evaluate : (String → Evaluator) → Found → Evaluator} {link : String → String → Prop}
  {defined : List String} {family : Nat → String → Evaluator} {name next : String} {depth : Nat}

theorem certain_of_error (depths : Depths look evaluate link defined family) {error : LookupError}
    (missing : look name = .error error) (depth : Nat) : Certain family depth name := by
  have same : ∀ any, family any name = fun entry => .undecided (.lookup error) entry := by
    intro any
    funext entry
    cases any with
    | zero => rw [depths.atZero, missing]
    | succ any => rw [depths.atSucc, missing]
  refine ⟨?_, fun deeper _ => by rw [same, same]⟩
  rw [same]
  intro entry other isEndless
  cases isEndless

theorem certain_of_links (depths : Depths look evaluate link defined family)
    (certain : ∀ next, link name next → Certain family depth next) :
    Certain family (depth + 1) name := by
  cases found : look name with
  | error error => exact depths.certain_of_error found (depth + 1)
  | ok followed =>
      have unfolded : ∀ any, family (any + 1) name = evaluate (family any) followed := by
        intro any
        funext entry
        rw [depths.atSucc, found]
      constructor
      · rw [unfolded]
        exact depths.settles name followed _ found fun next linked => (certain next linked).settled
      · intro deeper below
        obtain ⟨above, rfl⟩ := Nat.exists_eq_add_of_le below
        rw [Nat.add_right_comm, unfolded, unfolded]
        exact depths.agrees name followed _ _ found fun next linked =>
          (certain next linked).constant _ (Nat.le_add_right depth above)

open Classical in
/-- The defined names that can be reached from a name, itself included. -/
noncomputable def reachable (link : String → String → Prop) (defined : List String)
    (name : String) : Finset String :=
  defined.toFinset.filter fun other => Relation.ReflTransGen link name other

theorem mem_reachable {other : String} :
    other ∈ reachable link defined name ↔
      other ∈ defined ∧ Relation.ReflTransGen link name other := by
  simp [reachable]

theorem card_reachable_le : (reachable link defined name).card ≤ defined.length := by
  refine Nat.le_trans (Finset.card_le_card fun other member => ?_) (List.toFinset_card_le defined)
  exact List.mem_toFinset.2 (mem_reachable.1 member).1

/-- Behind a link fewer names can be reached: the one in front of it no more. -/
theorem card_reachable_lt (isDefined : name ∈ defined) (finite : ReachesNoCycle link name)
    (linked : link name next) :
    (reachable link defined next).card < (reachable link defined name).card := by
  refine Finset.card_lt_card ((Finset.ssubset_iff_of_subset ?_).2 ⟨name, ?_, ?_⟩)
  · intro other member
    obtain ⟨otherDefined, reached⟩ := mem_reachable.1 member
    exact mem_reachable.2 ⟨otherDefined, .head linked reached⟩
  · exact mem_reachable.2 ⟨isDefined, .refl⟩
  · intro member
    exact finite name .refl (Relation.TransGen.head' linked (mem_reachable.1 member).2)

/-- The induction is on the depth, which is never less than the number of names that can still be
reached. -/
theorem certain_of_card (depths : Depths look evaluate link defined family)
    (finite : ReachesNoCycle link name) (deep : (reachable link defined name).card ≤ depth) :
    Certain family depth name := by
  induction depth generalizing name with
  | zero =>
      cases found : look name with
      | error error => exact depths.certain_of_error found 0
      | ok followed =>
          have member : name ∈ reachable link defined name :=
            mem_reachable.2 ⟨depths.covers name followed found, .refl⟩
          have positive := Finset.card_pos.2 ⟨name, member⟩
          omega
  | succ depth inductionHypothesis =>
      cases found : look name with
      | error error => exact depths.certain_of_error found (depth + 1)
      | ok followed =>
          have isDefined := depths.covers name followed found
          refine depths.certain_of_links fun next linked => ?_
          have fewer := card_reachable_lt isDefined finite linked
          exact inductionHypothesis (finite.next linked) (by omega)

theorem certain (depths : Depths look evaluate link defined family)
    (finite : ReachesNoCycle link name) (deep : defined.length ≤ depth) :
    Certain family depth name :=
  depths.certain_of_card finite (Nat.le_trans card_reachable_le deep)

end Depths

/-! ## Charsets -/

/-- A charset names this symbol, whether there is one or not. -/
def CharsetNames (schema : Schema) (name next : String) : Prop :=
  ∃ charset, schema.get? name = some (.charset charset) ∧ .symbol next ∈ charset.criteria

theorem charsetLink_of_names {schema : Schema} {name next last : String}
    (first : CharsetNames schema name next) (second : CharsetNames schema next last) :
    CharsetLink schema.symbols name next := by
  obtain ⟨charset, found, named⟩ := first
  obtain ⟨other, foundNext, _⟩ := second
  exact ⟨charset, other, found, named, foundNext⟩

/-- In a circle every name is that of a charset, so it is a circle of charsets. -/
theorem reachesNoCycle_of_acyclic {schema : Schema} (acyclic : CharsetsAcyclic schema.symbols)
    (name : String) : ReachesNoCycle (CharsetNames schema) name := by
  have lift {first last : String} (leads : Relation.TransGen (CharsetNames schema) first last) :
      ∀ {behind : String}, CharsetNames schema last behind →
        Relation.TransGen (CharsetLink schema.symbols) first last := by
    induction leads with
    | single link => exact fun onward => .single (charsetLink_of_names link onward)
    | tail _ link inductionHypothesis =>
        exact fun onward => .tail (inductionHypothesis link) (charsetLink_of_names link onward)
  intro other _ returns
  obtain ⟨next, first, _⟩ := Relation.TransGen.head'_iff.1 returns
  exact acyclic other (lift returns first)

/-! ## Patterns -/

/-- A pattern refers to this symbol, whether there is one or not. -/
def PatternRefers (schema : Schema) (name next : String) : Prop :=
  ∃ pattern, schema.get? name = some (.pattern pattern) ∧ next ∈ referencesOf pattern.children

namespace Schema

/-- No chain of references that begins at this pattern comes to a circle. -/
def RefersFinitely (schema : Schema) (name : String) : Prop :=
  ReachesNoCycle (PatternRefers schema) name

def patternNames (schema : Schema) : List String :=
  schema.symbols.entries.filterMap fun entry =>
    match entry.2 with
    | .pattern _ => some entry.1
    | .charset _ => none

theorem length_patternNames (schema : Schema) :
    schema.patternNames.length = schema.patterns.length := by
  unfold patternNames patterns
  induction schema.symbols.entries with
  | nil => rfl
  | cons entry rest inductionHypothesis =>
      obtain ⟨name, symbol⟩ := entry
      cases symbol with
      | pattern pattern => simpa using inductionHypothesis
      | charset charset => simpa using inductionHypothesis

theorem mem_patternNames_of_get? {schema : Schema} {name : String} {pattern : Pattern}
    (found : schema.get? name = some (.pattern pattern)) : name ∈ schema.patternNames :=
  List.mem_filterMap.2
    ⟨(name, .pattern pattern), (schema.symbols.mem_entries_iff name _).2 found, rfl⟩

end Schema

/-! ## Evaluators at every depth -/

namespace Scene

variable (scene : Scene)

theorem depths_charsetTo :
    Depths scene.schema.charset scene.charsetWith (CharsetNames scene.schema) scene.schema.names
      scene.charsetTo where
  atZero := by
    intro name entry
    rw [charsetTo]
    cases scene.schema.charset name <;> rfl
  atSucc := by
    intro depth name entry
    rw [charsetTo]
    cases scene.schema.charset name <;> rfl
  covers := fun _ _ found => Table.mem_names_of_get? (Schema.charset_eq_ok_iff.1 found)
  settles := fun _ charset _ found settled =>
    scene.charsetWith_settled charset fun next named =>
      settled next ⟨charset, Schema.charset_eq_ok_iff.1 found, named⟩
  agrees := fun _ charset _ _ found agree =>
    scene.charsetWith_congr charset fun next named =>
      agree next ⟨charset, Schema.charset_eq_ok_iff.1 found, named⟩

theorem charset_certain (acyclic : CharsetsAcyclic scene.schema.symbols) (name : String) :
    Certain scene.charsetTo scene.schema.size name :=
  scene.depths_charsetTo.certain (reachesNoCycle_of_acyclic acyclic name)
    (Nat.le_of_eq (List.length_map _))

theorem depths_patternTo (charsets : ∀ name, Settled (scene.charset name)) :
    Depths scene.schema.pattern scene.patternWith (PatternRefers scene.schema)
      scene.schema.patternNames scene.patternTo where
  atZero := by
    intro name entry
    rw [patternTo]
    cases scene.schema.pattern name <;> rfl
  atSucc := by
    intro depth name entry
    rw [patternTo]
    cases scene.schema.pattern name <;> rfl
  covers := fun _ _ found => Schema.mem_patternNames_of_get? (Schema.pattern_eq_ok_iff.1 found)
  settles := fun _ pattern _ found settled =>
    scene.patternWith_settled charsets pattern fun next named =>
      settled next ⟨pattern, Schema.pattern_eq_ok_iff.1 found, named⟩
  agrees := fun _ pattern _ _ found agree =>
    scene.patternWith_congr pattern fun next named =>
      agree next ⟨pattern, Schema.pattern_eq_ok_iff.1 found, named⟩

theorem patterns_length_le_referenceDepth (entry : State) :
    scene.schema.patterns.length ≤ scene.referenceDepth entry := by
  unfold referenceDepth
  rw [Nat.mul_assoc]
  exact Nat.le_succ_of_le
    (Nat.le_mul_of_pos_right _ (Nat.mul_pos (Nat.succ_pos _) (Nat.succ_pos _)))

section Pattern

variable {scene} {name : String} {pattern : Pattern}

/-- From one step for each pattern on, all depths give a pattern the same evaluator. -/
theorem patternWith_certain (acyclic : CharsetsAcyclic scene.schema.symbols)
    (found : scene.schema.get? name = some (.pattern pattern))
    (finite : scene.schema.RefersFinitely name) {depth : Nat}
    (deep : scene.schema.patterns.length ≤ depth) :
    Settled (scene.patternWith (scene.patternTo depth) pattern) ∧
      ∀ deeper, depth ≤ deeper →
        scene.patternWith (scene.patternTo deeper) pattern =
          scene.patternWith (scene.patternTo depth) pattern := by
  have charsets : ∀ name, Settled (scene.charset name) :=
    fun name => (scene.charset_certain acyclic name).settled
  have certain : ∀ next ∈ referencesOf pattern.children, Certain scene.patternTo depth next := by
    intro next named
    refine (scene.depths_patternTo charsets).certain (finite.next ⟨pattern, found, named⟩) ?_
    rw [Schema.length_patternNames]
    exact deep
  exact ⟨scene.patternWith_settled charsets pattern fun next named => (certain next named).settled,
    fun deeper below => scene.patternWith_congr pattern fun next named =>
      (certain next named).constant deeper below⟩

theorem pattern_settled (acyclic : CharsetsAcyclic scene.schema.symbols)
    (found : scene.schema.get? name = some (.pattern pattern))
    (finite : scene.schema.RefersFinitely name) : Settled (scene.pattern pattern) :=
  fun entry => (patternWith_certain acyclic found finite
    (scene.patterns_length_le_referenceDepth entry)).1 entry

end Pattern

end Scene

/-- An evaluation that may follow names to any depth comes to this outcome by itself: it is not cut
short, and it stays what it is however much deeper names may be followed. -/
def ComesTo (evaluation : Nat → Evaluator) (entry : State) (outcome : Outcome) : Prop :=
  outcome.Decided ∧ ∃ limit, ∀ depth, limit ≤ depth → evaluation depth entry = outcome

namespace Scene

variable {scene : Scene}

theorem charset_comesTo (acyclic : CharsetsAcyclic scene.schema.symbols) (name : String)
    (entry : State) :
    ComesTo (fun depth => scene.charsetTo depth name) entry (scene.charset name entry) := by
  have certain := scene.charset_certain acyclic name
  exact ⟨certain.settled entry, scene.schema.size, fun depth below =>
    congrFun (certain.constant depth below) entry⟩

theorem pattern_comesTo (acyclic : CharsetsAcyclic scene.schema.symbols) {name : String}
    {pattern : Pattern} (found : scene.schema.get? name = some (.pattern pattern))
    (finite : scene.schema.RefersFinitely name) (entry : State) :
    ComesTo (fun depth => scene.evaluatorTo depth (.pattern pattern)) entry
      (scene.pattern pattern entry) := by
  obtain ⟨_, constant⟩ := patternWith_certain acyclic found finite
    (scene.patterns_length_le_referenceDepth entry)
  exact ⟨pattern_settled acyclic found finite entry, scene.referenceDepth entry,
    fun depth below => congrFun (constant depth below) entry⟩

end Scene

/-! ## Searches -/

theorem firstMatch_of_settled {evaluator : Evaluator} (settled : Settled evaluator) (state : State)
    (offsets : List Nat) (name : String) :
    firstMatch evaluator state offsets ≠ .error (.endlessReference name) := by
  induction offsets generalizing state with
  | nil =>
      intro isEndless
      cases isEndless
  | cons offset later inductionHypothesis =>
      unfold firstMatch
      split
      · intro isEndless
        cases isEndless
      · exact inductionHypothesis _
      · rename_i error after outcome
        intro isEndless
        cases isEndless
        exact settled.undecided outcome after name rfl

/-- Global searches in a row: these matches, and then one that finds nothing or fails. -/
inductive Sweeps (schema : Schema) (text : Array Char) (options : Options) :
    Tracker → Tracker.Sweep → Prop where
  | ended {tracker next : Tracker}
      (nothing : tracker.search schema text options true = (.ok none, next)) :
      Sweeps schema text options tracker ⟨[], none, next⟩
  | failed {tracker next : Tracker} {error : MatchError}
      (undecided : tracker.search schema text options true = (.error error, next)) :
      Sweeps schema text options tracker ⟨[], some error, next⟩
  | another {tracker next : Tracker} {span : Span} {later : Tracker.Sweep}
      (found : tracker.search schema text options true = (.ok (some span), next))
      (onward : Sweeps schema text options next later) :
      Sweeps schema text options tracker { later with spans := span :: later.spans }

namespace Tracker

variable {schema : Schema} {text : Array Char} {options : Options} {pattern : Pattern}

/-- A match, be it empty, moves the next search nearer to the end of the text. -/
theorem ahead_lt_of_search {tracker next : Tracker} {span : Span}
    (resolved : schema.entryPattern options.entry = .ok pattern)
    (found : tracker.search schema text options true = (.ok (some span), next)) :
    text.size - next.lastIndex < text.size - tracker.lastIndex := by
  obtain ⟨⟨after, leading, matched, same⟩, rfl⟩ :=
    @next_of_find schema text { options with global := some true } pattern resolved rfl _ _ _ found
  have forward : span.start ≤ span.stop := by
    rw [same]
    exact ((Scene.pattern_lawful _ pattern).bounds leading.inside matched).1
  have onward := Span.start_lt_resumption forward
  have notBefore := leading.notBefore
  have inside := leading.inside
  show text.size - span.resumption < _
  omega

/-- The searches of a sweep end by themselves: the number of them that is allowed is never used up
before. -/
theorem sweepTo_sweeps (resolved : schema.entryPattern options.entry = .ok pattern) {limit : Nat}
    {tracker : Tracker} (enough : text.size - tracker.lastIndex < limit) :
    Sweeps schema text options tracker (sweepTo schema text options limit tracker) := by
  induction limit generalizing tracker with
  | zero => omega
  | succ limit inductionHypothesis =>
      unfold sweepTo
      split
      · rename_i undecided
        exact .failed undecided
      · rename_i nothing
        exact .ended nothing
      · rename_i span next found
        have nearer := ahead_lt_of_search resolved found
        exact .another found (inductionHypothesis (by omega))

theorem sweep_sweeps (tracker : Tracker)
    (resolved : schema.entryPattern options.entry = .ok pattern) :
    Sweeps schema text options tracker (tracker.sweep schema text options) :=
  sweepTo_sweeps resolved (Nat.lt_succ_self _)

section Settled

variable (resolved : schema.entryPattern options.entry = .ok pattern)
  (settled : Settled (Scene.pattern ⟨schema, text, options.supplied⟩ pattern))

include resolved settled

theorem search_of_settled (tracker : Tracker) (global : Bool) (name : String) :
    (tracker.search schema text options global).1 ≠ .error (.endlessReference name) := by
  rw [tracker.search_eq resolved]
  split
  · rename_i error failed
    intro isEndless
    cases isEndless
    exact firstMatch_of_settled settled _ _ name failed
  · intro isEndless
    cases isEndless
  · intro isEndless
    cases isEndless

theorem find_of_settled (tracker : Tracker) (name : String) :
    (tracker.find schema text options).1 ≠ .error (.endlessReference name) :=
  tracker.search_of_settled resolved settled _ name

theorem test_of_settled (tracker : Tracker) (name : String) :
    (tracker.test schema text options).1 ≠ .error (.endlessReference name) := by
  have found := tracker.find_of_settled resolved settled name
  unfold test
  split
  · intro isEndless
    cases isEndless
  · rename_i error next failed
    intro isEndless
    rw [failed] at found
    cases isEndless
    exact found rfl

theorem sweeps_of_settled {tracker : Tracker} {sweep : Sweep}
    (sweeps : Sweeps schema text options tracker sweep) (name : String) :
    sweep.failure ≠ some (.endlessReference name) := by
  induction sweeps with
  | ended nothing =>
      intro isEndless
      cases isEndless
  | failed undecided =>
      intro isEndless
      cases isEndless
      exact search_of_settled resolved settled _ true name (congrArg Prod.fst undecided)
  | another _ _ inductionHypothesis => exact inductionHypothesis

theorem spansToReplace_of_settled (tracker : Tracker) (name : String) :
    (tracker.spansToReplace schema text options).1 ≠ .error (.endlessReference name) := by
  unfold spansToReplace
  split
  · have notSwept := sweeps_of_settled resolved settled (tracker.sweep_sweeps resolved) name
    simp only
    split
    · rename_i error failed
      intro isEndless
      cases isEndless
      exact notSwept failed
    · intro isEndless
      cases isEndless
  · have notFound := tracker.search_of_settled resolved settled false name
    split
    · intro isEndless
      cases isEndless
    · rename_i error next failed
      intro isEndless
      rw [failed] at notFound
      cases isEndless
      exact notFound rfl

theorem replace_of_settled (tracker : Tracker) (template : String) (name : String) :
    (tracker.replace schema text template options).1 ≠ .error (.endlessReference name) := by
  have taken := tracker.spansToReplace_of_settled resolved settled name
  unfold replace
  split
  · intro isEndless
    cases isEndless
  · rename_i error next failed
    intro isEndless
    rw [failed] at taken
    cases isEndless
    exact taken rfl

end Settled

end Tracker

/-! ## Ranks -/

/-- Every reference of a pattern leads to a name of lower rank. -/
def Schema.descendsBy (schema : Schema) (rank : String → Nat) : Bool :=
  schema.symbols.entries.all fun entry =>
    match entry.2 with
    | .pattern pattern =>
        (referencesOf pattern.children).all fun next => decide (rank next < rank entry.1)
    | .charset _ => true

theorem Schema.refersFinitely_of_descendsBy {schema : Schema} {rank : String → Nat}
    (descends : schema.descendsBy rank = true) (name : String) : schema.RefersFinitely name := by
  have lower {first next : String} (link : PatternRefers schema first next) :
      rank next < rank first := by
    obtain ⟨pattern, found, named⟩ := link
    have here := List.all_eq_true.1 descends _ ((schema.symbols.mem_entries_iff _ _).2 found)
    exact of_decide_eq_true (List.all_eq_true.1 here next named)
  have lowest {first last : String} (leads : Relation.TransGen (PatternRefers schema) first last) :
      rank last < rank first := by
    induction leads with
    | single link => exact lower link
    | tail _ link inductionHypothesis => exact Nat.lt_trans (lower link) inductionHypothesis
  exact fun other _ returns => Nat.lt_irrefl _ (lowest returns)

/-- In a schema that compiles every charset comes to an answer or an error, in every text and from
every state, and so does every pattern whose references come to no circle; more depth would change
nothing. With such a pattern as entry, a search tests, finds and replaces without being cut short,
and a replacement makes finitely many searches. As long as the rounds of a repeat move the cursor,
there are no more of them than characters left. -/
theorem matching_terminates {source : String} {schema : Schema}
    (compiled : compile source = .ok schema) (text : Array Char) (supplied : Bindings) :
    let scene : Scene := ⟨schema, text, supplied⟩
    (∀ name entry,
      ComesTo (fun depth => scene.charsetTo depth name) entry (scene.charset name entry)) ∧
    (∀ name pattern, schema.get? name = some (.pattern pattern) → schema.RefersFinitely name →
      (∀ entry, ComesTo (fun depth => scene.evaluatorTo depth (.pattern pattern)) entry
        (scene.pattern pattern entry)) ∧
      ∀ (options : Options) (tracker : Tracker) (template : String),
        options.supplied = supplied → schema.entryPattern options.entry = .ok pattern →
          Sweeps schema text options tracker (tracker.sweep schema text options) ∧
          ∀ symbol,
            (tracker.test schema text options).1 ≠ .error (.endlessReference symbol) ∧
            (tracker.find schema text options).1 ≠ .error (.endlessReference symbol) ∧
            (tracker.replace schema text template options).1 ≠
              .error (.endlessReference symbol)) ∧
    (∀ depth node entry states,
      (entry :: states).IsChain (scene.MovingRound (scene.patternTo depth) node) →
        states.length ≤ entry.remaining text) := by
  intro scene
  have acyclic : CharsetsAcyclic schema.symbols := (printable_of_compile compiled).acyclic
  refine ⟨fun name entry => Scene.charset_comesTo acyclic name entry, ?_, ?_⟩
  · intro name pattern found finite
    refine ⟨Scene.pattern_comesTo acyclic found finite, ?_⟩
    rintro options tracker template rfl resolved
    have settled : Settled (scene.pattern pattern) := Scene.pattern_settled acyclic found finite
    exact ⟨tracker.sweep_sweeps resolved, fun symbol =>
      ⟨tracker.test_of_settled resolved settled symbol,
        tracker.find_of_settled resolved settled symbol,
        tracker.replace_of_settled resolved settled template symbol⟩⟩
  · exact fun depth node entry states rounds =>
      Scene.length_le_of_movingRounds (scene.patternTo_lawful depth) rounds

/-- A row of pairs behind a separator, with a charset that names another one. -/
def pairsSource : String :=
  "||\n\x7bpair\x7d times 1 to forever\nafter \x7bgap\x7d\n||\n" ++
    "@pair\n||\nany half\nnone few\n||\n@gap\n||\nany x\n||\n@half\na to c, few\n@few\ndigit"

/-- The row refers to the pairs and, in its separator, to the gap between them; neither leads on. -/
theorem row_of_pairs_terminates :
    ∃ schema pattern, compile pairsSource = .ok schema ∧
      schema.get? "0" = some (.pattern pattern) ∧ schema.RefersFinitely "0" ∧
      let scene : Scene := ⟨schema, #['1', 'z', 'x', 'a', 'b'], ∅⟩
      ComesTo (fun depth => scene.charsetTo depth "half") {} (scene.charset "half" {}) ∧
      ComesTo (fun depth => scene.evaluatorTo depth (.pattern pattern)) {}
        (scene.pattern pattern {}) ∧
      ∀ tracker : Tracker,
        Sweeps schema scene.text {} tracker (tracker.sweep schema scene.text {}) := by
  obtain ⟨schema, compiled, seen⟩ := exists_of_view pairsSource
    (fun schema => ((schema.pattern "0").toOption.map fun pattern => referencesOf pattern.children,
      schema.descendsBy fun name => if name = "0" then 1 else 0))
    (some ["pair", "gap"], true) (by decide +kernel)
  obtain ⟨references, ranks⟩ := Prod.mk.inj seen
  have finite := Schema.refersFinitely_of_descendsBy ranks "0"
  cases looked : schema.pattern "0" with
  | error error =>
      rw [looked] at references
      cases references
  | ok pattern =>
      have found := Schema.pattern_eq_ok_iff.1 looked
      have resolved : schema.entryPattern none = .ok pattern := by
        simp [Schema.entryPattern, defaultEntry, looked]
      obtain ⟨charsets, patterns, _⟩ := matching_terminates compiled #['1', 'z', 'x', 'a', 'b'] ∅
      obtain ⟨evaluations, searches⟩ := patterns "0" pattern found finite
      exact ⟨schema, pattern, compiled, found, finite, charsets "half" {}, evaluations {},
        fun tracker => (searches {} tracker "" rfl resolved).1⟩

end PlainPattern
