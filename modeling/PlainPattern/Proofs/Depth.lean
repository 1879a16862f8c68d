import Mathlib.Data.Finset.Card
import Mathlib.Order.Monotone.Basic
import PlainPattern.Proofs.Extension
import PlainPattern.Proofs.Termination

/-!
Contract: names are followed as deep as it can matter.

Owns: `Deepens`, what is known of evaluators that look a name up and follow what they find one step
less deep; the leeway of a state; and the results that say the depths of a scene suffice,
`charset_eq_of_decided` and `patternNamed_eq_of_decided`. An evaluation that is cut short at its own
depth is cut short at every depth: it would go on without end.

The bound is a count. At one state, as long as another step of depth settles no further name, no
later step will; so there are at most as many steps as names. Between states the leeway counts what
a chain of references can still do: move the cursor, or begin to collect.
-/

set_option autoImplicit false

namespace PlainPattern

open Evaluator

/-! ## Depths at one state -/

/-- Evaluators by name that look a name up and follow what they find one step less deep. In states
that are `closed`, what was found is extended if all names are. -/
structure Deepens {Found : Type} (look : String → Except LookupError Found)
    (evaluate : (String → Evaluator) → Found → Evaluator) (defined : List String)
    (closed : (State → Prop) → Prop) (family : Nat → String → Evaluator) : Prop where
  atZero : ∀ name entry, family 0 name entry =
    match look name with
    | .error error => .undecided (.lookup error) entry
    | .ok _ => .undecided (.endlessReference name) entry
  atSucc : ∀ depth name entry, family (depth + 1) name entry =
    match look name with
    | .error error => .undecided (.lookup error) entry
    | .ok found => evaluate (family depth) found entry
  covers : ∀ name found, look name = .ok found → name ∈ defined
  everywhere : closed fun _ => True
  carries : ∀ {within : State → Prop} {depth other : Nat} {name : String} {found : Found},
    closed within → look name = .ok found →
    (∀ next, ExtendedBy within (family depth next) (family other next)) →
    ExtendedBy within (evaluate (family depth) found) (evaluate (family other) found)

/-- At this state, a name that is not cut short at some depth is not cut short at this depth. -/
def SettlesBy (family : Nat → String → Evaluator) (depth : Nat) (state : State) : Prop :=
  ∀ name other, (family other name state).Decided → (family depth name state).Decided

namespace Deepens

variable {Found : Type} {look : String → Except LookupError Found}
  {evaluate : (String → Evaluator) → Found → Evaluator} {defined : List String}
  {closed : (State → Prop) → Prop} {family : Nat → String → Evaluator} {name : String}
  {depth deeper : Nat} {state : State}

theorem decided_of_error (deepens : Deepens look evaluate defined closed family)
    {error : LookupError} (missing : look name = .error error) (depth : Nat) (state : State) :
    (family depth name state).Decided := by
  cases depth with
  | zero =>
      rw [deepens.atZero, missing]
      exact fun _ isEndless => by cases isEndless
  | succ depth =>
      rw [deepens.atSucc, missing]
      exact fun _ isEndless => by cases isEndless

theorem extended_succ (deepens : Deepens look evaluate defined closed family) (depth : Nat)
    (name : String) :
    ExtendedBy (fun _ => True) (family depth name) (family (depth + 1) name) := by
  induction depth generalizing name with
  | zero =>
      intro entry _ decided
      rw [deepens.atZero] at decided ⊢
      rw [deepens.atSucc]
      cases found : look name with
      | error error => rfl
      | ok _ =>
          rw [found] at decided
          exact absurd rfl (decided name)
  | succ depth inductionHypothesis =>
      intro entry inside decided
      rw [deepens.atSucc] at decided ⊢
      rw [deepens.atSucc]
      cases found : look name with
      | error error => rfl
      | ok followed =>
          rw [found] at decided
          exact deepens.carries deepens.everywhere found inductionHypothesis entry inside decided

/-- More depth does not change an outcome that was not cut short. -/
theorem eq_of_le (deepens : Deepens look evaluate defined closed family) (below : depth ≤ deeper)
    (decided : (family depth name state).Decided) :
    family deeper name state = family depth name state := by
  induction deeper, below using Nat.le_induction with
  | base => rfl
  | succ deeper _ inductionHypothesis =>
      rw [deepens.extended_succ deeper name state trivial (inductionHypothesis ▸ decided),
        inductionHypothesis]

theorem decided_of_le (deepens : Deepens look evaluate defined closed family)
    (below : depth ≤ deeper) (decided : (family depth name state).Decided) :
    (family deeper name state).Decided :=
  deepens.eq_of_le below decided ▸ decided

/-- An outcome that was not cut short is the same at any depth that settles its state. -/
theorem eq_of_settlesBy (deepens : Deepens look evaluate defined closed family)
    (settles : SettlesBy family depth state) {other : Nat}
    (decided : (family other name state).Decided) :
    family depth name state = family other name state := by
  have fromDepth := deepens.eq_of_le (Nat.le_max_left depth other) (settles name other decided)
  have fromOther := deepens.eq_of_le (Nat.le_max_right depth other) decided
  exact fromDepth.symm.trans fromOther

theorem settlesBy_of_le (deepens : Deepens look evaluate defined closed family)
    (below : depth ≤ deeper) (settles : SettlesBy family depth state) :
    SettlesBy family deeper state :=
  fun name other decided => deepens.decided_of_le below (settles name other decided)

/-! ### Counting the names that are settled -/

open Classical in
/-- The names that are not cut short at a depth. -/
noncomputable def settledNames (family : Nat → String → Evaluator) (defined : List String)
    (state : State) (depth : Nat) : Finset String :=
  defined.toFinset.filter fun name => (family depth name state).Decided

theorem mem_settledNames :
    name ∈ settledNames family defined state depth ↔
      name ∈ defined ∧ (family depth name state).Decided := by
  simp [settledNames]

theorem settledNames_subset (deepens : Deepens look evaluate defined closed family)
    (below : depth ≤ deeper) :
    settledNames family defined state depth ⊆ settledNames family defined state deeper := by
  intro name member
  obtain ⟨isDefined, decided⟩ := mem_settledNames.1 member
  exact mem_settledNames.2 ⟨isDefined, deepens.decided_of_le below decided⟩

theorem card_settledNames_le (family : Nat → String → Evaluator) (defined : List String)
    (state : State) (depth : Nat) :
    (settledNames family defined state depth).card ≤ defined.length := by
  refine Nat.le_trans (Finset.card_le_card fun name member => ?_) (List.toFinset_card_le defined)
  exact List.mem_toFinset.2 (mem_settledNames.1 member).1

section Level

variable {leeway : State → Nat}

/-- If a step of depth settles no further name at a state, the next one settles none either: what is
followed from here is at states that are settled, or at this one. -/
theorem settledNames_stay (deepens : Deepens look evaluate defined closed family)
    (closedBelow : closed fun other => other = state ∨ leeway other < leeway state)
    (below : ∀ other, leeway other < leeway state → SettlesBy family depth other)
    (deep : depth ≤ deeper)
    (stays : settledNames family defined state (deeper + 1) =
      settledNames family defined state deeper) :
    settledNames family defined state (deeper + 2) =
      settledNames family defined state (deeper + 1) := by
  -- Seen from this state, the deeper evaluators do no more than the others.
  have back : ∀ next, ExtendedBy (fun other => other = state ∨ leeway other < leeway state)
      (family (deeper + 1) next) (family deeper next) := by
    rintro next other (rfl | nearer) decided
    · cases found : look next with
      | error error =>
          exact (deepens.eq_of_le (Nat.le_succ deeper)
            (deepens.decided_of_error found deeper other)).symm
      | ok followed =>
          have member := mem_settledNames.2 ⟨deepens.covers next followed found, decided⟩
          rw [stays] at member
          exact (deepens.eq_of_le (Nat.le_succ deeper) (mem_settledNames.1 member).2).symm
    · exact deepens.eq_of_settlesBy (deepens.settlesBy_of_le deep (below other nearer)) decided
  refine Finset.Subset.antisymm (fun name member => ?_)
    (deepens.settledNames_subset (Nat.le_succ _))
  obtain ⟨isDefined, decided⟩ := mem_settledNames.1 member
  refine mem_settledNames.2 ⟨isDefined, ?_⟩
  rw [deepens.atSucc] at decided ⊢
  cases found : look name with
  | error error => exact fun _ isEndless => by cases isEndless
  | ok followed =>
      rw [found] at decided
      have same := deepens.carries closedBelow found back state (Or.inl rfl) decided
      simp only [same]
      exact decided

/-- One step of depth for each name settles a state, if the states of less leeway are settled. -/
theorem settlesBy_add_length (deepens : Deepens look evaluate defined closed family)
    (closedBelow : closed fun other => other = state ∨ leeway other < leeway state)
    (below : ∀ other, leeway other < leeway state → SettlesBy family depth other) :
    SettlesBy family (depth + defined.length) state := by
  have constant (more : Nat) :
      settledNames family defined state (depth + (defined.length + more)) =
        settledNames family defined state (depth + defined.length) := by
    refine (Finset.eq_of_subset_of_card_le (deepens.settledNames_subset (by omega)) ?_).symm
    refine Nat.le_of_eq (Nat.stabilises_of_monotone
      (f := fun count => (settledNames family defined state (depth + count)).card)
      (monotone_nat_of_le_succ fun count => ?_) (fun count => card_settledNames_le ..)
      (fun count same => ?_) (Nat.le_add_right _ _))
    · exact Finset.card_le_card (deepens.settledNames_subset (Nat.le_succ _))
    · have stays := Finset.eq_of_subset_of_card_le
        (deepens.settledNames_subset (Nat.le_succ (depth + count))) (Nat.le_of_eq same.symm)
      exact (congrArg Finset.card (deepens.settledNames_stay closedBelow below
        (Nat.le_add_right _ _) stays.symm)).symm
  intro name other decided
  cases found : look name with
  | error error => exact deepens.decided_of_error found _ state
  | ok followed =>
      have deep : other ≤ depth + (defined.length + other) := by omega
      have member := mem_settledNames.2
        ⟨deepens.covers name followed found, deepens.decided_of_le deep decided⟩
      rw [constant] at member
      exact (mem_settledNames.1 member).2

/-- A state is settled by as many steps for each name as it has leeway, and one more. -/
theorem settlesBy (deepens : Deepens look evaluate defined closed family) (leeway : State → Nat)
    (closedBelow : ∀ state, closed fun other => other = state ∨ leeway other < leeway state)
    (state : State) : SettlesBy family (defined.length * (leeway state + 1)) state := by
  induction measured : leeway state using Nat.strong_induction_on generalizing state with
  | _ left inductionHypothesis =>
      subst measured
      refine deepens.settlesBy_add_length (closedBelow state) fun other nearer => ?_
      exact deepens.settlesBy_of_le (Nat.mul_le_mul_left _ nearer)
        (inductionHypothesis _ nearer other rfl)

end Level

end Deepens

/-! ## Charsets -/

namespace Scene

variable {scene : Scene}

theorem deepens_charsetTo (scene : Scene) :
    Deepens scene.schema.charset scene.charsetWith scene.schema.names (fun _ => True)
      scene.charsetTo where
  atZero := by
    intro name entry
    rw [charsetTo]
    cases scene.schema.charset name <;> rfl
  atSucc := by
    intro depth name entry
    rw [charsetTo]
    cases scene.schema.charset name <;> rfl
  covers := fun _ _ found => Table.mem_names_of_get? (Schema.charset_eq_ok_iff.1 found)
  everywhere := trivial
  carries := fun _ _ extended => charsetWith_extended ⟨rfl, rfl⟩ (scene.charsetTo_lawful _)
    fun next _ _ => extended next

/-- A charset follows names as deep as it can matter. -/
theorem charset_eq_of_decided {depth : Nat} {name : String} {entry : State}
    (decided : (scene.charsetTo depth name entry).Decided) :
    scene.charset name entry = scene.charsetTo depth name entry := by
  -- Within a charset the state does not change, so it has no leeway at all.
  have settles := scene.deepens_charsetTo.settlesBy (fun _ => 0) (fun _ => trivial) entry
  have size : scene.schema.names.length * (0 + 1) = scene.schema.size := by
    simp [Schema.names, Schema.size, Table.names, Table.size]
  rw [size] at settles
  exact scene.deepens_charsetTo.eq_of_settlesBy settles decided

end Scene

/-! ## The leeway of a state -/

/-- The names under which the patterns of a schema collect. -/
def Schema.captureNames (schema : Schema) : List String :=
  captureNamesOf (schema.patterns.flatMap Pattern.children)

theorem Schema.length_captureNames_le (schema : Schema) :
    schema.captureNames.length ≤ schema.nodeCount :=
  length_captureNamesOf_le _

theorem Schema.mem_captureNames {schema : Schema} {name capture : String} {pattern : Pattern}
    (found : schema.get? name = some (.pattern pattern))
    (collects : capture ∈ captureNamesOf pattern.children) : capture ∈ schema.captureNames := by
  have inSchema : pattern ∈ schema.patterns := List.mem_filterMap.2
    ⟨(name, .pattern pattern), (schema.symbols.mem_entries_iff name _).2 found, rfl⟩
  obtain ⟨node, member, named⟩ := mem_captureNamesOf.1 collects
  exact mem_captureNamesOf.2 ⟨node, List.mem_flatMap.2 ⟨pattern, inSchema, member⟩, named⟩

namespace Scene

variable {scene : Scene}

/-- How often a chain of references can still move the cursor, or begin to collect between two moves
of it. -/
def leeway (scene : Scene) (state : State) : Nat :=
  state.remaining scene.text * (scene.schema.captureNames.length + 1) +
    (scene.schema.captureNames.filter fun name => decide (name ∉ state.collecting)).length

theorem leeway_of_consumes {entry after : State} (consumes : Consumes scene.text entry after) :
    after = entry ∨ scene.leeway after < scene.leeway entry := by
  by_cases nearer : after.remaining scene.text < entry.remaining scene.text
  · right
    have less := Nat.mul_le_mul_right (scene.schema.captureNames.length + 1) nearer
    rw [Nat.succ_mul] at less
    simp only [leeway, consumes.collecting_eq]
    omega
  · exact Or.inl (consumes.eq_of_remaining_le (Nat.le_of_not_lt nearer))

theorem leeway_beginCapture {name : String} (collects : name ∈ scene.schema.captureNames)
    (entry : State) :
    entry.beginCapture name = entry ∨
      scene.leeway (entry.beginCapture name) < scene.leeway entry := by
  by_cases collecting : name ∈ entry.collecting
  · exact Or.inl (if_pos collecting)
  · right
    rw [State.beginCapture_of_fresh collecting]
    refine Nat.add_lt_add_left ?_ _
    have fewer : (scene.schema.captureNames.filter fun other =>
          decide (other ∉ name :: entry.collecting)) =
        (scene.schema.captureNames.filter fun other => decide (other ∉ entry.collecting)).filter
          fun other => decide (other ≠ name) := by
      rw [List.filter_filter]
      refine List.filter_congr fun other _ => ?_
      simp [not_or]
    simp only [fewer]
    refine List.length_filter_lt_length_iff_exists.2 ⟨name, ?_, by simp⟩
    exact List.mem_filter.2 ⟨collects, by simpa using collecting⟩

/-- A scene allows at least the depth that settles a state. -/
theorem settling_le_referenceDepth (scene : Scene) (state : State) :
    scene.schema.patternNames.length * (scene.leeway state + 1) ≤ scene.referenceDepth state := by
  have names := scene.schema.length_captureNames_le
  have uncollected : (scene.schema.captureNames.filter fun name =>
      decide (name ∉ state.collecting)).length ≤ scene.schema.captureNames.length :=
    List.length_filter_le _ _
  have places : scene.leeway state + 1 ≤
      (state.remaining scene.text + 1) * (scene.schema.nodeCount + 1) := by
    calc scene.leeway state + 1
        ≤ (state.remaining scene.text + 1) * (scene.schema.captureNames.length + 1) := by
          rw [leeway, Nat.succ_mul]
          omega
      _ ≤ (state.remaining scene.text + 1) * (scene.schema.nodeCount + 1) :=
          Nat.mul_le_mul_left _ (Nat.succ_le_succ names)
  rw [Schema.length_patternNames, referenceDepth, Nat.mul_assoc]
  exact Nat.le_succ_of_le (Nat.mul_le_mul_left _ places)

/-! ## Patterns -/

/-- States that are left neither by consuming nor by beginning to collect. -/
structure Closed (scene : Scene) (within : State → Prop) : Prop where
  onward : Onward scene.text within
  captures : ∀ name ∈ scene.schema.captureNames, ∀ entry, within entry →
    within (entry.beginCapture name)

theorem closed_below (scene : Scene) (state : State) :
    scene.Closed fun other => other = state ∨ scene.leeway other < scene.leeway state where
  onward := by
    rintro entry after (rfl | nearer) consumes
    · exact leeway_of_consumes consumes
    · rcases leeway_of_consumes consumes with rfl | less
      · exact Or.inr nearer
      · exact Or.inr (Nat.lt_trans less nearer)
  captures := by
    rintro name collects entry (rfl | nearer)
    · exact leeway_beginCapture collects entry
    · rcases leeway_beginCapture collects entry with same | less
      · exact Or.inr (by rw [same]; exact nearer)
      · exact Or.inr (Nat.lt_trans less nearer)

/-- A pattern of the schema is extended where its references are. -/
theorem patternWith_extended_of_closed {within : State → Prop} (closed : scene.Closed within)
    {name : String} {found : Pattern} (looked : scene.schema.pattern name = .ok found)
    {pattern more : String → Evaluator} (lawful : ∀ next, Lawful scene.text (pattern next))
    (extended : ∀ next, ExtendedBy within (pattern next) (more next)) :
    ExtendedBy within (scene.patternWith pattern found) (scene.patternWith more found) :=
  patternWith_extended ⟨⟨rfl, rfl⟩, closed.onward, lawful⟩ found
    ⟨fun next _ => extended next, fun _ _ => .refl within _, fun capture collects =>
      closed.captures capture
        (Schema.mem_captureNames (Schema.pattern_eq_ok_iff.1 looked) collects)⟩

theorem deepens_patternTo (scene : Scene) :
    Deepens scene.schema.pattern scene.patternWith scene.schema.patternNames scene.Closed
      scene.patternTo where
  atZero := by
    intro name entry
    rw [patternTo]
    cases scene.schema.pattern name <;> rfl
  atSucc := by
    intro depth name entry
    rw [patternTo]
    cases scene.schema.pattern name <;> rfl
  covers := fun _ _ found => Schema.mem_patternNames_of_get? (Schema.pattern_eq_ok_iff.1 found)
  everywhere := ⟨fun _ _ _ _ => trivial, fun _ _ _ _ => trivial⟩
  carries := fun closed looked extended =>
    patternWith_extended_of_closed closed looked (scene.patternTo_lawful _) extended

/-- A pattern refers to others as deep as it can matter: if it is not cut short at some depth, it is
not cut short at the depth that the scene allows, and comes to the same outcome. -/
theorem pattern_eq_of_decided {name : String} {found : Pattern}
    (looked : scene.schema.pattern name = .ok found) {depth : Nat} {entry : State}
    (decided : (scene.patternWith (scene.patternTo depth) found entry).Decided) :
    scene.pattern found entry = scene.patternWith (scene.patternTo depth) found entry := by
  have extended : ∀ next, ExtendedBy
      (fun other => other = entry ∨ scene.leeway other < scene.leeway entry)
      (scene.patternTo depth next) (scene.patternTo (scene.referenceDepth entry) next) := by
    intro next other inside decided
    have noMore : scene.leeway other ≤ scene.leeway entry := by
      rcases inside with rfl | less
      · exact Nat.le_refl _
      · exact Nat.le_of_lt less
    have deep := Nat.le_trans (Nat.mul_le_mul_left _ (Nat.succ_le_succ noMore))
      (scene.settling_le_referenceDepth entry)
    exact scene.deepens_patternTo.eq_of_settlesBy (scene.deepens_patternTo.settlesBy_of_le deep
      (scene.deepens_patternTo.settlesBy scene.leeway scene.closed_below other)) decided
  exact patternWith_extended_of_closed (scene.closed_below entry) looked (scene.patternTo_lawful _)
    extended entry (Or.inl rfl) decided

theorem patternNamed_eq_of_decided {name : String} {depth : Nat} {entry : State}
    (decided : (scene.patternTo depth name entry).Decided) :
    scene.patternNamed name entry = scene.patternTo depth name entry := by
  -- One step deeper, the name has been followed at least once.
  have deeper := scene.deepens_patternTo.eq_of_le (Nat.le_succ depth) decided
  rw [← deeper] at decided ⊢
  rw [scene.deepens_patternTo.atSucc] at decided ⊢
  cases looked : scene.schema.pattern name with
  | error error => simp only [patternNamed, looked]
  | ok found =>
      rw [looked] at decided
      rw [patternNamed_of_found looked]
      exact pattern_eq_of_decided looked decided

/-- What is cut short at the depth that the scene allows is cut short at every depth. -/
theorem pattern_decided_iff {name : String} {found : Pattern}
    (looked : scene.schema.pattern name = .ok found) (entry : State) :
    (scene.pattern found entry).Decided ↔
      ∃ depth, (scene.evaluatorTo depth (.pattern found) entry).Decided := by
  constructor
  · exact fun decided => ⟨scene.referenceDepth entry, decided⟩
  · rintro ⟨depth, decided⟩
    rw [pattern_eq_of_decided looked decided]
    exact decided

end Scene

end PlainPattern
