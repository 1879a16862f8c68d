import Mathlib.Logic.Relation
import PlainPattern.Proofs.EndlessSearches

/-!
Contract: what an entry pattern cannot reach does not matter to it.

Owns: the lookups that a symbol leads to, `Schema.Reaches` for those that an entry leads to, and
schemas that agree on them (`Schema.AgreesFrom`); and the main result
`unreachable_symbols_do_not_matter`. Where two schemas agree, attempts that follow names equally
deep come to the same. How deep a search follows them depends on the whole schema, and by
`Proofs.Depth` makes no difference to attempts that end.
-/

set_option autoImplicit false

namespace PlainPattern

open Evaluator

/-! ## Lookups -/

/-- What is looked up: a pattern or a charset, under a name. -/
inductive Lookup where
  | pattern (name : String)
  | charset (name : String)
deriving DecidableEq, Repr

/-- What a criterion looks up. The name of a character class is not looked up. -/
def Criterion.lookup? : Criterion → Option Lookup
  | .symbol name => if (CharacterClass.ofName? name).isNone then some (.charset name) else none
  | _ => none

/-- What a pattern looks up: its references, and the charsets of its rules. -/
def Pattern.lookups (pattern : Pattern) : List Lookup :=
  (referencesOf pattern.children).map .pattern ++
    ((rulesOf pattern.children).flatMap Rule.criteria).filterMap Criterion.lookup?

def Charset.lookups (charset : Charset) : List Lookup :=
  charset.criteria.filterMap Criterion.lookup?

theorem Criterion.lookup?_symbol {name : String} (noClass : CharacterClass.ofName? name = none) :
    (Criterion.symbol name).lookup? = some (.charset name) := by
  simp [lookup?, noClass]

theorem Pattern.mem_lookups_of_reference {pattern : Pattern} {name : String}
    (refers : name ∈ referencesOf pattern.children) : .pattern name ∈ pattern.lookups :=
  List.mem_append_left _ (List.mem_map_of_mem refers)

theorem Pattern.mem_lookups_of_rule {pattern : Pattern} {rule : Rule} {name : String}
    (inside : rule ∈ rulesOf pattern.children) (names : .symbol name ∈ rule.criteria)
    (noClass : CharacterClass.ofName? name = none) : .charset name ∈ pattern.lookups :=
  List.mem_append_right _ (List.mem_filterMap.2
    ⟨_, List.mem_flatMap.2 ⟨rule, inside, names⟩, Criterion.lookup?_symbol noClass⟩)

theorem Charset.mem_lookups {charset : Charset} {name : String}
    (names : .symbol name ∈ charset.criteria) (noClass : CharacterClass.ofName? name = none) :
    .charset name ∈ charset.lookups :=
  List.mem_filterMap.2 ⟨_, names, Criterion.lookup?_symbol noClass⟩

namespace Schema

/-- What is looked up behind a lookup, if it finds something. -/
def lookups (schema : Schema) : Lookup → List Lookup
  | .pattern name =>
      match schema.pattern name with
      | .ok pattern => pattern.lookups
      | .error _ => []
  | .charset name =>
      match schema.charset name with
      | .ok charset => charset.lookups
      | .error _ => []

/-- An attempt to match this entry may come to this lookup. -/
def Reaches (schema : Schema) (entry : String) : Lookup → Prop :=
  Relation.ReflTransGen (fun found next => next ∈ schema.lookups found) (.pattern entry)

/-- Two schemas hold the same definition here, or a lookup fails for the same reason. -/
def AgreesOn (first second : Schema) : Lookup → Prop
  | .pattern name => second.pattern name = first.pattern name
  | .charset name => second.charset name = first.charset name

/-- Two schemas agree on an entry and on everything that it reaches. -/
def AgreesFrom (first second : Schema) (entry : String) : Prop :=
  ∀ lookup, first.Reaches entry lookup → first.AgreesOn second lookup

section Lookups

variable {first second schema : Schema} {entry name : String}

theorem Reaches.pattern {found : Pattern} {next : Lookup}
    (reaches : schema.Reaches entry (.pattern name)) (looked : schema.pattern name = .ok found)
    (member : next ∈ found.lookups) : schema.Reaches entry next :=
  Relation.ReflTransGen.tail reaches (by simpa only [lookups, looked] using member)

theorem Reaches.charset {found : Charset} {next : Lookup}
    (reaches : schema.Reaches entry (.charset name)) (looked : schema.charset name = .ok found)
    (member : next ∈ found.lookups) : schema.Reaches entry next :=
  Relation.ReflTransGen.tail reaches (by simpa only [lookups, looked] using member)

/-- What an entry reaches is among any lookups that contain it and lead to nothing else. -/
theorem Reaches.mem_of_closed (known : List Lookup) {lookup : Lookup}
    (reaches : schema.Reaches entry lookup) (start : .pattern entry ∈ known)
    (closed : ∀ found ∈ known, ∀ next ∈ schema.lookups found, next ∈ known) : lookup ∈ known := by
  induction reaches with
  | refl => exact start
  | tail _ member inductionHypothesis => exact closed _ inductionHypothesis _ member

theorem AgreesOn.lookups_eq {lookup : Lookup} (agrees : first.AgreesOn second lookup) :
    second.lookups lookup = first.lookups lookup := by
  cases lookup with
  | pattern name =>
      have same : second.pattern name = first.pattern name := agrees
      simp only [lookups, same]
  | charset name =>
      have same : second.charset name = first.charset name := agrees
      simp only [lookups, same]

theorem AgreesOn.symm {lookup : Lookup} (agrees : first.AgreesOn second lookup) :
    second.AgreesOn first lookup := by
  cases lookup <;> exact Eq.symm agrees

theorem AgreesFrom.symm (agrees : first.AgreesFrom second entry) :
    second.AgreesFrom first entry := by
  have back (lookup : Lookup) (reaches : second.Reaches entry lookup) :
      first.Reaches entry lookup := by
    induction reaches with
    | refl => exact .refl
    | tail _ member inductionHypothesis =>
        rw [(agrees _ inductionHypothesis).lookups_eq] at member
        exact inductionHypothesis.tail member
  exact fun lookup reaches => (agrees lookup (back lookup reaches)).symm

end Lookups

end Schema

/-! ## Attempts -/

/-- Two ways to follow names that find the same under the names in question, and follow what they
find to more of these names, come to the same at every depth. -/
theorem Deepens.extendedBy_of_agrees {Found : Type}
    {look otherLook : String → Except LookupError Found}
    {evaluate otherEvaluate : (String → Evaluator) → Found → Evaluator}
    {defined otherDefined : List String} {closed otherClosed : (State → Prop) → Prop}
    {family otherFamily : Nat → String → Evaluator} {reached : String → Prop}
    (deepens : Deepens look evaluate defined closed family)
    (otherDeepens : Deepens otherLook otherEvaluate otherDefined otherClosed otherFamily)
    (agrees : ∀ name, reached name → otherLook name = look name)
    (carries : ∀ depth name found, reached name → look name = .ok found →
      (∀ next, reached next →
        ExtendedBy (fun _ => True) (family depth next) (otherFamily depth next)) →
      ExtendedBy (fun _ => True) (evaluate (family depth) found)
        (otherEvaluate (otherFamily depth) found))
    (depth : Nat) {name : String} (isReached : reached name) :
    ExtendedBy (fun _ => True) (family depth name) (otherFamily depth name) := by
  induction depth generalizing name with
  | zero =>
      intro state _ _
      rw [deepens.atZero, otherDeepens.atZero, agrees name isReached]
  | succ depth inductionHypothesis =>
      intro state inside decided
      rw [deepens.atSucc] at decided ⊢
      rw [otherDeepens.atSucc, agrees name isReached]
      cases looked : look name with
      | error error => rfl
      | ok found =>
          rw [looked] at decided
          exact carries depth name found isReached looked (fun _ => inductionHypothesis) state
            inside decided

namespace Scene

theorem SharesInput.symm {scene other : Scene} (shares : SharesInput scene other) :
    SharesInput other scene :=
  ⟨shares.text.symm, shares.supplied.symm⟩

section Agreement

variable {scene other : Scene} {entry name : String} (shares : SharesInput scene other)
  (agrees : scene.schema.AgreesFrom other.schema entry)

include shares agrees

theorem charsetTo_extended_of_agrees (depth : Nat)
    (reaches : scene.schema.Reaches entry (.charset name)) :
    ExtendedBy (fun _ => True) (scene.charsetTo depth name) (other.charsetTo depth name) :=
  scene.deepens_charsetTo.extendedBy_of_agrees other.deepens_charsetTo
    (fun name reaches => agrees (.charset name) reaches)
    (fun depth _ _ reaches looked extended =>
      charsetWith_extended shares (scene.charsetTo_lawful depth) fun next names noClass =>
        extended next (reaches.charset looked (Charset.mem_lookups names noClass)))
    depth reaches

/-- Each schema follows names through its charsets as deep as it has symbols. -/
theorem charset_extended_of_agrees (reaches : scene.schema.Reaches entry (.charset name)) :
    ExtendedBy (fun _ => True) (scene.charset name) (other.charset name) := by
  intro state inside decided
  have same := charsetTo_extended_of_agrees shares agrees scene.schema.size reaches state inside
    decided
  have otherDecided : (other.charsetTo scene.schema.size name state).Decided := same ▸ decided
  rw [charset_eq_of_decided otherDecided, same]
  rfl

theorem patternWith_extended_of_agrees {depth : Nat} {found : Pattern}
    (reaches : scene.schema.Reaches entry (.pattern name))
    (looked : scene.schema.pattern name = .ok found)
    (references : ∀ next, scene.schema.Reaches entry (.pattern next) →
      ExtendedBy (fun _ => True) (scene.patternTo depth next) (other.patternTo depth next)) :
    ExtendedBy (fun _ => True) (scene.patternWith (scene.patternTo depth) found)
      (other.patternWith (other.patternTo depth) found) := by
  have rules (rule : Rule) (inside : rule ∈ rulesOf found.children) :
      ExtendedBy (fun _ => True) (scene.rule rule) (other.rule rule) :=
    rule_extended shares fun next names noClass => charset_extended_of_agrees shares agrees
      (reaches.pattern looked (Pattern.mem_lookups_of_rule inside names noClass))
  refine patternWith_extended ⟨shares, fun _ _ _ _ => trivial, scene.patternTo_lawful depth⟩ found
    ⟨fun next refers => ?_, rules, fun _ _ _ _ => trivial⟩
  exact references next (reaches.pattern looked (Pattern.mem_lookups_of_reference refers))

theorem patternTo_extended_of_agrees (depth : Nat)
    (reaches : scene.schema.Reaches entry (.pattern name)) :
    ExtendedBy (fun _ => True) (scene.patternTo depth name) (other.patternTo depth name) :=
  scene.deepens_patternTo.extendedBy_of_agrees other.deepens_patternTo
    (fun name reaches => agrees (.pattern name) reaches)
    (fun _ _ _ reaches looked => patternWith_extended_of_agrees shares agrees reaches looked)
    depth reaches

/-- Each schema follows references as deep as its own patterns and its own size ask for. -/
theorem patternNamed_extended_of_agrees (reaches : scene.schema.Reaches entry (.pattern name)) :
    ExtendedBy (fun _ => True) (scene.patternNamed name) (other.patternNamed name) := by
  intro state inside decided
  rw [scene.patternNamed_eq] at decided ⊢
  have same := patternTo_extended_of_agrees shares agrees _ reaches state inside decided
  have otherDecided :
      (other.patternTo (scene.referenceDepth state + 1) name state).Decided := same ▸ decided
  rw [patternNamed_eq_of_decided otherDecided, same]

theorem pattern_extended_of_agrees {found : Pattern}
    (looked : scene.schema.pattern entry = .ok found) :
    ExtendedBy (fun _ => True) (scene.pattern found) (other.pattern found) := by
  have start : scene.schema.Reaches entry (.pattern entry) := .refl
  have otherLooked : other.schema.pattern entry = .ok found := (agrees _ start).trans looked
  rw [← patternNamed_of_found looked, ← patternNamed_of_found otherLooked]
  exact patternNamed_extended_of_agrees shares agrees start

end Agreement

end Scene

/-! ## Searches -/

/-- At some offset of the text neither schema comes to an end. -/
def Schema.BothNeverSettle (first second : Schema) (text : Array Char) (options : Options) : Prop :=
  ∃ offset < text.size, first.NeverSettles text options offset ∧
    second.NeverSettles text options offset

/-- Two calls come to the same answer or the same error and leave the same tracker, unless neither
comes to an end. -/
def ComeToSame {Value : Type} (endless : Prop) (call other : Except MatchError Value × Tracker) :
    Prop :=
  other = call ∨ endless ∧ ∃ name otherName tracker,
    call = (.error (.endlessReference name), tracker) ∧
      other = (.error (.endlessReference otherName), tracker)

/-- Calls that settle under one schema have the same outcome under the other. -/
theorem ComeToSame.eq_of_settled {Value : Type} {endless : Prop}
    {call other : Except MatchError Value × Tracker} (comeToSame : ComeToSame endless call other)
    (settled : ∀ name, call.1 ≠ .error (.endlessReference name)) : other = call := by
  rcases comeToSame with same | ⟨_, name, _, _, rfl, _⟩
  · exact same
  · exact absurd rfl (settled name)

/-- A call with its answer changed; an error stays as it is. -/
def mapAnswer {Value Result : Type} (change : Value → Result)
    (call : Except MatchError Value × Tracker) : Except MatchError Result × Tracker :=
  (call.1.map change, call.2)

theorem ComeToSame.map {Value Result : Type} {endless : Prop}
    {call other : Except MatchError Value × Tracker} (comeToSame : ComeToSame endless call other)
    (change : Value → Result) : ComeToSame endless (mapAnswer change call)
      (mapAnswer change other) := by
  rcases comeToSame with same | ⟨isEndless, name, otherName, tracker, rfl, rfl⟩
  · exact Or.inl (congrArg _ same)
  · exact Or.inr ⟨isEndless, name, otherName, tracker, rfl, rfl⟩

section Calls

variable (tracker : Tracker) (schema : Schema) (text : Array Char) (options : Options)

theorem Tracker.test_eq : tracker.test schema text options =
    mapAnswer Option.isSome (tracker.find schema text options) := by
  unfold test
  rcases tracker.find schema text options with ⟨_ | _, _⟩ <;> rfl

theorem Tracker.spansToReplace_of_single (single : options.global.getD true = false) :
    tracker.spansToReplace schema text options =
      mapAnswer Option.toList (tracker.search schema text options false) := by
  unfold spansToReplace
  rw [single]
  rcases tracker.search schema text options false with ⟨_ | _, _⟩ <;> rfl

theorem Tracker.replace_eq (template : String) : tracker.replace schema text template options =
    mapAnswer (fun spans => String.ofList (spliceAll text.toList template.toList spans))
      (tracker.spansToReplace schema text options) := by
  unfold replace
  rcases tracker.spansToReplace schema text options with ⟨_ | _, _⟩ <;> rfl

end Calls

section Searches

variable {first second : Schema} {text : Array Char} {options : Options}

/-- Attempts in a row come to the same up to one that neither evaluator brings to an end. -/
theorem firstMatch_of_extended {evaluator other : Evaluator}
    (forth : ExtendedBy (fun _ => True) evaluator other)
    (back : ExtendedBy (fun _ => True) other evaluator) (state : State) (offsets : List Nat) :
    firstMatch other state offsets = firstMatch evaluator state offsets ∨
      ∃ offset ∈ offsets, ∃ name otherName, ¬(evaluator (State.startingAt offset)).Decided ∧
        ¬(other (State.startingAt offset)).Decided ∧
        firstMatch evaluator state offsets = .error (.endlessReference name) ∧
        firstMatch other state offsets = .error (.endlessReference otherName) := by
  induction offsets generalizing state with
  | nil => exact Or.inl rfl
  | cons offset later inductionHypothesis =>
      simp only [firstMatch, State.reset_eq_startingAt]
      by_cases decided : (evaluator (State.startingAt offset)).Decided
      · rw [forth _ trivial decided]
        cases evaluator (State.startingAt offset) with
        | undecided _ _ => exact Or.inl rfl
        | answer matched after =>
            cases matched with
            | true => exact Or.inl rfl
            | false =>
                rcases inductionHypothesis after with same | ⟨cutShort, member, endless⟩
                · exact Or.inl same
                · exact Or.inr ⟨cutShort, List.mem_cons_of_mem _ member, endless⟩
      · have otherCutShort : ¬(other (State.startingAt offset)).Decided := fun otherDecided =>
          decided (by rw [← back _ trivial otherDecided] at otherDecided; exact otherDecided)
        obtain ⟨name, _, outcome⟩ := Outcome.exists_of_not_decided decided
        obtain ⟨otherName, _, otherOutcome⟩ := Outcome.exists_of_not_decided otherCutShort
        refine Or.inr ⟨offset, List.mem_cons_self, name, otherName, decided, otherCutShort, ?_, ?_⟩
        · rw [outcome]
        · rw [otherOutcome]

variable (agrees : first.AgreesFrom second options.entryName)

include agrees

theorem Tracker.search_comeToSame (tracker : Tracker) (global : Bool) :
    ComeToSame (first.BothNeverSettle second text options)
      (tracker.search first text options global) (tracker.search second text options global) := by
  have samePattern : second.pattern options.entryName = first.pattern options.entryName :=
    agrees _ .refl
  have sameEntry : second.entryPattern options.entry = first.entryPattern options.entry := by
    rw [Schema.entryPattern_eq, Schema.entryPattern_eq, samePattern]
  cases resolved : first.entryPattern options.entry with
  | error error =>
      left
      simp only [search, sameEntry, resolved]
  | ok pattern =>
      have otherResolved := sameEntry.trans resolved
      have shares : Scene.SharesInput ⟨first, text, options.supplied⟩
          ⟨second, text, options.supplied⟩ := ⟨rfl, rfl⟩
      have forth := Scene.pattern_extended_of_agrees shares agrees
        (Schema.pattern_of_entryPattern resolved)
      have back := Scene.pattern_extended_of_agrees shares.symm agrees.symm
        (Schema.pattern_of_entryPattern otherResolved)
      rw [ComeToSame, tracker.search_eq resolved, tracker.search_eq otherResolved]
      rcases firstMatch_of_extended forth back {} (offsetsFrom (tracker.beginning global) text) with
        same | ⟨offset, member, name, otherName, cutShort, otherCutShort, failed, otherFailed⟩
      · left
        rw [same]
      · right
        have inside : offset < text.size := by
          have bounds := List.mem_range'_1.1 member
          omega
        refine ⟨⟨offset, inside, Schema.neverSettles_of_pattern resolved cutShort,
          Schema.neverSettles_of_pattern otherResolved otherCutShort⟩, name, otherName,
          ⟨tracker.beginning global⟩, ?_, ?_⟩
        · rw [failed]
        · rw [otherFailed]

theorem Tracker.test_comeToSame (tracker : Tracker) :
    ComeToSame (first.BothNeverSettle second text options) (tracker.test first text options)
      (tracker.test second text options) := by
  rw [test_eq, test_eq]
  exact (tracker.search_comeToSame agrees (options.global.getD false)).map Option.isSome

variable (text) in
/-- Rows of searches find the same matches, up to a search that neither brings to an end. -/
theorem Tracker.sweepTo_of_agrees (limit : Nat) (tracker : Tracker) :
    sweepTo second text options limit tracker = sweepTo first text options limit tracker ∨
      first.BothNeverSettle second text options ∧ ∃ spans name otherName next,
        sweepTo first text options limit tracker =
          ⟨spans, some (.endlessReference name), next⟩ ∧
        sweepTo second text options limit tracker =
          ⟨spans, some (.endlessReference otherName), next⟩ := by
  induction limit generalizing tracker with
  | zero => exact Or.inl rfl
  | succ limit inductionHypothesis =>
      simp only [sweepTo]
      rcases tracker.search_comeToSame agrees true with
        same | ⟨endless, name, otherName, next, failed, otherFailed⟩
      · rw [same]
        rcases tracker.search first text options true with ⟨_ | _ | span, next⟩
        · exact Or.inl rfl
        · exact Or.inl rfl
        · rcases inductionHypothesis next with
            sameLater | ⟨endless, spans, name, otherName, last, failed, otherFailed⟩
          · left
            simp only [sameLater]
          · right
            refine ⟨endless, span :: spans, name, otherName, last, ?_, ?_⟩
            · simp only [failed]
            · simp only [otherFailed]
      · right
        refine ⟨endless, [], name, otherName, next, ?_, ?_⟩
        · rw [failed]
        · rw [otherFailed]

theorem Tracker.spansToReplace_comeToSame (tracker : Tracker) :
    ComeToSame (first.BothNeverSettle second text options)
      (tracker.spansToReplace first text options) (tracker.spansToReplace second text options) := by
  cases everywhere : options.global.getD true with
  | false =>
      rw [spansToReplace_of_single _ _ _ _ everywhere, spansToReplace_of_single _ _ _ _ everywhere]
      exact (tracker.search_comeToSame agrees false).map Option.toList
  | true =>
      unfold spansToReplace
      rw [everywhere]
      rcases Tracker.sweepTo_of_agrees text agrees (text.size - tracker.lastIndex + 1) tracker with
        same | ⟨endless, spans, name, otherName, next, failed, otherFailed⟩
      · left
        simp only [sweep, same, if_true]
      · right
        refine ⟨endless, name, otherName, next, ?_, ?_⟩
        · simp only [sweep, failed, if_true]
        · simp only [sweep, otherFailed, if_true]

theorem Tracker.replace_comeToSame (tracker : Tracker) (template : String) :
    ComeToSame (first.BothNeverSettle second text options)
      (tracker.replace first text template options)
      (tracker.replace second text template options) := by
  rw [replace_eq, replace_eq]
  exact (tracker.spansToReplace_comeToSame agrees).map _

end Searches

/-- Two schemas that agree on an entry and on everything that it reaches, by references anywhere in
a pattern and by the names of charsets, whether there is a symbol or not, give that entry the same
searches, tests and replacements: the same answer or the same error, and the same tracker. Only
where an attempt goes on without end under either schema, neither call comes back. -/
theorem unreachable_symbols_do_not_matter (first second : Schema) (options : Options)
    (agrees : first.AgreesFrom second options.entryName) (text : Array Char) (tracker : Tracker) :
    let endless := first.BothNeverSettle second text options
    ComeToSame endless (tracker.find first text options) (tracker.find second text options) ∧
      ComeToSame endless (tracker.test first text options) (tracker.test second text options) ∧
      ∀ template, ComeToSame endless (tracker.replace first text template options)
        (tracker.replace second text template options) :=
  ⟨tracker.search_comeToSame agrees _, tracker.test_comeToSame agrees,
    tracker.replace_comeToSame agrees⟩

/-- A pattern `item` of a letter out of a charset and, if there is none, of a pattern that is
missing; and next to them one more symbol. -/
def itemSchema (name : String) (symbol : Symbol) : Schema :=
  let item : Pattern := ⟨"item", [.mk (.reference "letter") {} .once,
    .mk (.reference "missing") { forks := true } .once]⟩
  let letter : Pattern := ⟨"letter", [.mk (.rule ⟨true, [.symbol "vowel"]⟩) {} .once]⟩
  let vowel : Charset := ⟨"vowel", [.range 'a' 'a', .symbol "digit"]⟩
  ⟨((((∅ : Table Symbol).insert "item" (.pattern item)).insert "letter" (.pattern letter)).insert
    "vowel" (.charset vowel)).insert name symbol⟩

/-- A pattern that refers to itself, or a charset in its place: to the entry it is all the same,
whether it finds something or stumbles over the missing name. -/
theorem spare_symbol_does_not_matter :
    let first := itemSchema "spare" (.pattern ⟨"spare", [.mk (.reference "spare") {} .once]⟩)
    let second := itemSchema "letters" (.charset ⟨"letters", [.symbol "letter"]⟩)
    let options : Options := { entry := some "item" }
    first.AgreesFrom second options.entryName ∧
      Tracker.find {} second #['a'] options = (.ok (some ⟨0, 1, ∅⟩), ⟨1⟩) ∧
      Tracker.replace {} second #['a', 'b'] "-" options =
        (.error (.lookup (.unknown "missing")), ⟨1⟩) := by
  intro first second options
  have agrees : first.AgreesFrom second options.entryName := by
    intro lookup reaches
    have known := reaches.mem_of_closed
      [.pattern "item", .pattern "letter", .pattern "missing", .charset "vowel"]
      (by decide +kernel) (by decide +kernel)
    simp only [List.mem_cons, List.not_mem_nil, or_false] at known
    rcases known with rfl | rfl | rfl | rfl <;> rfl
  have outcomes := unreachable_symbols_do_not_matter first second options agrees
  refine ⟨agrees, ?_, ?_⟩
  · have found : Tracker.find {} first #['a'] options = (.ok (some ⟨0, 1, ∅⟩), ⟨1⟩) := rfl
    rw [← found]
    exact (outcomes #['a'] {}).1.eq_of_settled (by rw [found]; exact nofun)
  · have failed : Tracker.replace {} first #['a', 'b'] "-" options =
        (.error (.lookup (.unknown "missing")), ⟨1⟩) := rfl
    rw [← failed]
    exact ((outcomes #['a', 'b'] {}).2.2 "-").eq_of_settled (by rw [failed]; exact nofun)

end PlainPattern
