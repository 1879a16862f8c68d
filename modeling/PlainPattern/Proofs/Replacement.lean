import PlainPattern.Proofs.Enumeration

/-!
Contract: replacing rewrites exactly the matches that finding enumerates.

Owns: `assembled`, the text written anew from left to right; `Ordered`, the places that make this
possible; and the main result `replace_rewrites_matches`. Replacement itself works in place and from
the last match to the first. `spliceAll_eq` ties the two together: as long as only what stands
behind a place has been rewritten, the text up to that place is the original one.
-/

set_option autoImplicit false

namespace PlainPattern

/-- A text from a place on, written from left to right: what stands before a span is kept, and the
span is replaced by the template with its own captures. -/
def assembled (text : Array Char) (template : List Char) : Nat → List Span → List Char
  | first, [] => stretch text first text.size
  | first, span :: later =>
      stretch text first span.start ++ Template.expand span.captured template ++
        assembled text template span.stop later

/-- Spans from a place on that stand in order, do not overlap and end within the text. -/
def Ordered (size : Nat) : Nat → List Span → Prop
  | first, [] => first ≤ size
  | first, span :: later =>
      first ≤ span.start ∧ span.start ≤ span.stop ∧ Ordered size span.stop later

/-- The matches that a replacement is about, and the tracker behind them: all that finding globally
enumerates from the tracker on, or the one that a search from the start of the text finds. -/
def Tracker.Takes (tracker : Tracker) (schema : Schema) (text : Array Char) (options : Options)
    (spans : List Span) (next : Tracker) : Prop :=
  if options.global.getD true then
    Enumerates schema text { options with global := some true } tracker spans next
  else
    ∃ found, tracker.find schema text { options with global := some false } = (.ok found, next) ∧
      spans = found.toList

/-! ## Writing in place -/

section Splicing

variable {text : Array Char} {template : List Char} {first : Nat} {spans : List Span}

theorem Ordered.first_le_size {size : Nat} (ordered : Ordered size first spans) :
    first ≤ size := by
  induction spans generalizing first with
  | nil => exact ordered
  | cons span later inductionHypothesis =>
      obtain ⟨notBefore, forward, laterOrdered⟩ := ordered
      have inside := inductionHypothesis laterOrdered
      omega

theorem Ordered.of_append {size : Nat} {earlier : List Span} {span : Span} {later : List Span}
    (ordered : Ordered size first (earlier ++ span :: later)) :
    span.start ≤ span.stop ∧ Ordered size span.stop later := by
  induction earlier generalizing first with
  | nil => exact ordered.2
  | cons head rest inductionHypothesis => exact inductionHypothesis ordered.2.2

theorem stretch_size (text : Array Char) (first : Nat) :
    stretch text first text.size = text.toList.drop first := by
  rw [stretch, Array.toList_extract, List.extract_eq_take_drop]
  exact List.take_of_length_le (by simp)

theorem take_append_stretch {last : Nat} (forward : first ≤ last) :
    text.toList.take first ++ stretch text first last = text.toList.take last := by
  obtain ⟨count, rfl⟩ := Nat.exists_eq_add_of_le forward
  rw [stretch, Array.toList_extract, List.extract_eq_take_drop, Nat.add_sub_cancel_left,
    List.take_add]

/-- Behind spans that are all at `first` or later, the text before `first` is as it was, and what
follows it is the text written anew. -/
theorem spliceAll_eq (ordered : Ordered text.size first spans) :
    spliceAll text.toList template spans =
      text.toList.take first ++ assembled text template first spans := by
  induction spans generalizing first with
  | nil =>
      rw [assembled, stretch_size, List.take_append_drop]
      rfl
  | cons span later inductionHypothesis =>
      obtain ⟨notBefore, forward, laterOrdered⟩ := ordered
      have rewritten := inductionHypothesis laterOrdered
      have inside := laterOrdered.first_le_size
      have kept : (text.toList.take span.stop).length = span.stop := by
        rw [List.length_take, Array.length_toList, Nat.min_eq_left inside]
      have before : (spliceAll text.toList template later).take span.start =
          text.toList.take span.start := by
        rw [rewritten, List.take_append_of_le_length (by omega), List.take_take,
          Nat.min_eq_left forward]
      have behind : (spliceAll text.toList template later).drop span.stop =
          assembled text template span.stop later := by
        rw [rewritten, List.drop_left' kept]
      calc spliceAll text.toList template (span :: later)
          = splice (spliceAll text.toList template later) span
              (Template.expand span.captured template) := rfl
        _ = text.toList.take span.start ++ Template.expand span.captured template ++
              assembled text template span.stop later := by rw [splice, before, behind]
        _ = text.toList.take first ++ assembled text template first (span :: later) := by
            rw [← take_append_stretch notBefore, assembled]
            simp only [List.append_assoc]

/-- When a span is replaced, what has been rewritten behind it reaches no further forward than its
end. -/
theorem take_spliceAll (ordered : Ordered text.size first spans) :
    first ≤ (spliceAll text.toList template spans).length ∧
      (spliceAll text.toList template spans).take first = text.toList.take first := by
  have kept : (text.toList.take first).length = first := by
    rw [List.length_take, Array.length_toList, Nat.min_eq_left ordered.first_le_size]
  rw [spliceAll_eq ordered]
  constructor
  · rw [List.length_append, kept]
    omega
  · exact List.take_left' kept

end Splicing

/-! ## The matches that are replaced -/

section Taken

variable {text : Array Char} {evaluator : Evaluator} {schema : Schema} {options : Options}

theorem ordered_of_exhausts (lawful : Evaluator.Lawful text evaluator) {place first : Nat}
    {spans : List Span} (exhausts : Exhausts evaluator text first spans) (notBefore : place ≤ first)
    (inside : place ≤ text.size) : Ordered text.size place spans := by
  induction spans generalizing place first with
  | nil => exact inside
  | cons span later inductionHypothesis =>
      obtain ⟨⟨after, leading, matched, same⟩, laterExhausts⟩ := exhausts
      obtain ⟨forward, stopInside⟩ := lawful.bounds leading.inside matched
      have stop : span.stop = after.position := congrArg Span.stop same
      refine ⟨Nat.le_trans notBefore leading.notBefore, stop ▸ forward, ?_⟩
      exact inductionHypothesis laterExhausts span.stop_le_resumption (stop ▸ stopInside)

/-- A row of searches ends by itself, however much longer it might have gone on. -/
theorem sweepTo_of_enumerates {tracker next : Tracker} {spans : List Span}
    (enumerates : Enumerates schema text { options with global := some true } tracker spans next)
    {limit : Nat} (enough : spans.length < limit) :
    Tracker.sweepTo schema text options limit tracker = ⟨spans, none, next⟩ := by
  induction enumerates generalizing limit with
  | ended nothing =>
      obtain ⟨limit, rfl⟩ := Nat.exists_eq_succ_of_ne_zero (Nat.ne_of_gt enough)
      have search := (Tracker.find_eq_search rfl _).symm.trans nothing
      rw [Tracker.sweepTo, show Tracker.search _ schema text options true = _ from search]
  | another found _ inductionHypothesis =>
      rw [List.length_cons] at enough
      obtain ⟨limit, rfl⟩ := Nat.exists_eq_succ_of_ne_zero (Nat.ne_of_gt (Nat.zero_lt_of_lt enough))
      have search := (Tracker.find_eq_search rfl _).symm.trans found
      rw [Tracker.sweepTo, show Tracker.search _ schema text options true = _ from search]
      simp only [inductionHypothesis (Nat.lt_of_succ_lt_succ enough)]

/-- If no evaluation errs there are matches to take, perhaps none, and they stand in order. -/
theorem Tracker.takes_of_neverErrs {tracker : Tracker}
    (neverErrs : tracker.NeverErrs schema text
      { options with global := some (options.global.getD true) }) :
    ∃ spans next, tracker.Takes schema text options spans next ∧
      tracker.spansToReplace schema text options = (.ok spans, next) ∧
      Ordered text.size 0 spans := by
  obtain ⟨found, next, answered⟩ := neverErrs.answers
  obtain ⟨pattern, resolved⟩ := entryPattern_of_search answered
  have lawful := Scene.pattern_lawful ⟨schema, text, options.supplied⟩ pattern
  unfold Takes spansToReplace
  cases isGlobal : options.global.getD true with
  | true =>
      rw [isGlobal] at neverErrs
      obtain ⟨spans, enumerates, exhausts⟩ :=
        enumerates_of_neverErrs (by exact resolved) rfl neverErrs
      have few := length_le_of_exhausts lawful exhausts
      have swept := sweepTo_of_enumerates enumerates (Nat.lt_succ_of_le few)
      refine ⟨spans, {}, by simpa using enumerates, ?_,
        ordered_of_exhausts lawful exhausts (Nat.zero_le _) (Nat.zero_le _)⟩
      simp only [if_true, sweep, swept]
  | false =>
      rw [isGlobal] at answered
      refine ⟨found.toList, next, by simpa using ⟨found, answered, rfl⟩, ?_, ?_⟩
      · have search : tracker.search schema text options false = (.ok found, next) := answered
        simp [search]
      · cases found with
        | none => exact Nat.zero_le _
        | some span =>
            obtain ⟨after, leading, matched, same⟩ := leading_of_search resolved answered
            obtain ⟨forward, stopInside⟩ := lawful.bounds leading.inside matched
            have stop : span.stop = after.position := congrArg Span.stop same
            exact ⟨Nat.zero_le _, stop ▸ forward, stop ▸ stopInside⟩

theorem Tracker.Takes.unique {tracker next other : Tracker} {spans others : List Span}
    (takes : tracker.Takes schema text options spans next)
    (again : tracker.Takes schema text options others other) : others = spans ∧ other = next := by
  unfold Takes at takes again
  split at takes
  · rw [if_pos (by assumption)] at again
    exact takes.unique again
  · rw [if_neg (by assumption)] at again
    obtain ⟨found, answered, rfl⟩ := takes
    obtain ⟨foundAgain, answeredAgain, rfl⟩ := again
    rw [answered] at answeredAgain
    cases answeredAgain
    exact ⟨rfl, rfl⟩

end Taken

/-- A replacement without errors ends. It writes the text anew from left to right, with the template
and its own captures in the place of every match that finding enumerates, and leaves a text without
matches as it is. When a match is replaced in place, its offsets lie in the text as it is by then,
and up to its end that text is still the original one. -/
theorem replace_rewrites_matches (tracker : Tracker) (schema : Schema) (text : Array Char)
    (template : String) (options : Options)
    (neverErrs : tracker.NeverErrs schema text
      { options with global := some (options.global.getD true) }) :
    (∃ spans next, tracker.Takes schema text options spans next) ∧
    ∀ spans next, tracker.Takes schema text options spans next →
      tracker.replace schema text template options =
        (.ok (String.ofList (assembled text template.toList 0 spans)), next) ∧
      (spans = [] → tracker.replace schema text template options =
        (.ok (String.ofList text.toList), next)) ∧
      ∀ earlier span later, spans = earlier ++ span :: later →
        let spliced := spliceAll text.toList template.toList later
        span.start ≤ span.stop ∧ span.stop ≤ spliced.length ∧
          spliced.take span.stop = text.toList.take span.stop := by
  obtain ⟨taken, behind, takes, replaced, ordered⟩ := Tracker.takes_of_neverErrs neverErrs
  refine ⟨⟨taken, behind, takes⟩, ?_⟩
  intro spans next again
  obtain ⟨rfl, rfl⟩ := takes.unique again
  have rewritten : tracker.replace schema text template options =
      (.ok (String.ofList (assembled text template.toList 0 spans)), next) := by
    simp only [Tracker.replace, replaced, spliceAll_eq ordered, List.take_zero, List.nil_append]
  refine ⟨rewritten, ?_, ?_⟩
  · rintro rfl
    rw [rewritten, assembled, stretch_size, List.drop_zero]
  · rintro earlier span later rfl
    obtain ⟨forward, laterOrdered⟩ := ordered.of_append
    exact ⟨forward, take_spliceAll laterOrdered⟩

/-- Spans of different lengths, empty ones among them: each is replaced with its own captures. -/
theorem empty_and_nonempty_matches_replaced :
    let children : List Node := [.exactly "x" { optional := true, collectAs := some "it" }]
    Tracker.replace {} (Schema.ofPattern children) #['a', 'x', 'b'] "<$(it)>" {} =
      (.ok "<$(it)>a<x><$(it)>b", {}) := by
  intro children
  have neverErrs : Tracker.NeverErrs {} (Schema.ofPattern children) #['a', 'x', 'b']
      { global := some true } := by
    refine Tracker.neverErrs_of_answers (Schema.entryPattern_ofPattern children) ?_ {}
    intro start inside
    have small : start < 3 := inside
    obtain rfl | rfl | rfl : start = 0 ∨ start = 1 ∨ start = 2 := by omega
    all_goals exact ⟨true, _, rfl⟩
  have takes : Tracker.Takes {} (Schema.ofPattern children) #['a', 'x', 'b'] {}
      [⟨0, 0, ∅⟩, ⟨1, 2, Bindings.ofPairs [("it", "x")]⟩, ⟨2, 2, ∅⟩] {} :=
    .another rfl (.another rfl (.another rfl (.ended rfl)))
  have replaced := (replace_rewrites_matches {} (Schema.ofPattern children) #['a', 'x', 'b']
    "<$(it)>" {} neverErrs).2 _ _ takes
  have written : assembled #['a', 'x', 'b'] "<$(it)>".toList 0
      [⟨0, 0, ∅⟩, ⟨1, 2, Bindings.ofPairs [("it", "x")]⟩, ⟨2, 2, ∅⟩] =
      "<$(it)>a<x><$(it)>b".toList := by
    decide +kernel
  rw [replaced.1, written, String.ofList_toList]

end PlainPattern
