import Mathlib.Data.List.Chain
import Mathlib.Logic.Relation
import PlainPattern.Draft.CharsetCycle

/-!
Contract: the walk over the charsets of a table finds a cycle exactly if there is one.

Owns: the link from one charset to another, cycles, and what the two answers of a walk mean. Names
that a walk calls harmless lead nowhere without end (`harmless_of_walk`), and a chain that it
reports closes (`cycle_of_walk`). `findCharsetCycle?_eq_none_iff` puts both together.
-/

set_option autoImplicit false

namespace PlainPattern

/-- One charset names another. -/
def CharsetLink (symbols : Table Symbol) (name next : String) : Prop :=
  ∃ charset other, symbols.get? name = some (.charset charset) ∧
    .symbol next ∈ charset.criteria ∧ symbols.get? next = some (.charset other)

/-- Charsets each of which names the next, the last of which is the first again and which do not
repeat otherwise. -/
def CharsetCycle (symbols : Table Symbol) (names : List String) : Prop :=
  ∃ name between, names = name :: between ++ [name] ∧
    names.IsChain (CharsetLink symbols) ∧ (name :: between).Nodup

/-- No charset leads back to itself. -/
def CharsetsAcyclic (symbols : Table Symbol) : Prop :=
  ∀ name, ¬Relation.TransGen (CharsetLink symbols) name name

section Walk

variable {symbols : Table Symbol} {fresh path done harmless : List String} {name : String}

theorem mem_filterMap_symbolName? {criteria : List Criterion} {next : String} :
    next ∈ criteria.filterMap Criterion.symbolName? ↔ .symbol next ∈ criteria := by
  rw [List.mem_filterMap]
  constructor
  · rintro ⟨criterion, member, named⟩
    cases criterion with
    | symbol other => exact Option.some.inj named ▸ member
    | literal | valueOf | range | endpoint => cases named
  · exact fun member => ⟨.symbol next, member, rfl⟩

theorem charsetLinks?_eq_some_iff {links : List String} :
    charsetLinks? symbols name = some links ↔
      ∃ charset, symbols.get? name = some (.charset charset) ∧
        charset.criteria.filterMap Criterion.symbolName? = links := by
  unfold charsetLinks?
  split
  · rename_i charset found
    simp [found]
  · rename_i other
    constructor
    · intro found
      cases found
    · rintro ⟨charset, found, _⟩
      exact absurd found (other charset)

theorem Table.nodup_names {Value : Type} (table : Table Value) : table.names.Nodup :=
  List.pairwise_map.2 (table.ascending.imp fun less => String.ne_of_lt less)

theorem Table.mem_names_of_get? {Value : Type} {table : Table Value} {value : Value}
    (found : table.get? name = some value) : name ∈ table.names := by
  rw [Table.mem_names_iff, Table.contains, found]
  rfl

/-! ### Harmless names -/

/-- From every one of these names, following links comes to an end. -/
def Harmless (symbols : Table Symbol) (names : List String) : Prop :=
  ∀ name ∈ names, Acc (fun next name => CharsetLink symbols name next) name

/-- What a walk from a name adds to the harmless names: the name, if it is a charset's. -/
structure WalkedTo (symbols : Table Symbol) (name : String) (done harmless : List String) :
    Prop where
  sound : Harmless symbols harmless
  kept : ∀ earlier ∈ done, earlier ∈ harmless
  added : ∀ charset, symbols.get? name = some (.charset charset) → name ∈ harmless

theorem walkedTo_of_foldlM {step : List String → String → Except (List String) (List String)}
    {links : List String}
    (each : ∀ before after, ∀ link ∈ links, Harmless symbols before →
      step before link = .ok after → WalkedTo symbols link before after)
    (start : Harmless symbols done) (walked : links.foldlM step done = .ok harmless) :
    Harmless symbols harmless ∧ (∀ earlier ∈ done, earlier ∈ harmless) ∧
      ∀ link ∈ links, ∀ charset, symbols.get? link = some (.charset charset) →
        link ∈ harmless := by
  induction links generalizing done with
  | nil =>
      cases walked
      exact ⟨start, fun _ member => member, by simp⟩
  | cons link rest inductionHypothesis =>
      rw [List.foldlM_cons] at walked
      cases first : step done link with
      | error cycle =>
          rw [first] at walked
          cases walked
      | ok middle =>
          rw [first] at walked
          have here := each done middle link List.mem_cons_self start first
          obtain ⟨sound, kept, added⟩ := inductionHypothesis
            (fun before after later member =>
              each before after later (List.mem_cons_of_mem _ member))
            here.sound walked
          refine ⟨sound, fun earlier member => kept earlier (here.kept earlier member), ?_⟩
          intro later member charset found
          rcases List.mem_cons.1 member with rfl | inRest
          · exact kept later (here.added charset found)
          · exact added later inRest charset found

/-- The induction is on the walk: the charset itself is harmless because all that it names is. -/
theorem harmless_of_walk (start : Harmless symbols done)
    (walked : walkCharsets symbols fresh path done name = .ok harmless) :
    WalkedTo symbols name done harmless := by
  fun_induction walkCharsets symbols fresh path done name generalizing harmless with
  | case1 fresh path done name noCharset =>
      cases walked
      refine ⟨start, fun _ member => member, fun charset found => ?_⟩
      rw [charsetLinks?_eq_some_iff.2 ⟨charset, found, rfl⟩] at noCharset
      cases noCharset
  | case2 fresh path done name links _ known =>
      cases walked
      exact ⟨start, fun _ member => member, fun _ _ => known⟩
  | case3 fresh path done name links found _ _ _ middle walkedLinks =>
      rename_i inductionHypothesis
      cases walked
      obtain ⟨sound, kept, added⟩ := walkedTo_of_foldlM
        (fun before after link _ => inductionHypothesis before link) start walkedLinks
      obtain ⟨charset, isCharset, rfl⟩ := charsetLinks?_eq_some_iff.1 found
      have here : Acc (fun next name => CharsetLink symbols name next) name := by
        refine Acc.intro name ?_
        rintro next ⟨charsetAgain, other, foundAgain, named, target⟩
        obtain rfl : charset = charsetAgain :=
          Symbol.charset.inj (Option.some.inj (isCharset.symm.trans foundAgain))
        exact sound next (added next (mem_filterMap_symbolName?.2 named) other target)
      refine ⟨?_, fun earlier member => List.mem_cons_of_mem _ (kept earlier member),
        fun _ _ => List.mem_cons_self⟩
      intro earlier member
      rcases List.mem_cons.1 member with rfl | inMiddle
      · exact here
      · exact sound earlier inMiddle
  | case4 => cases walked
  | case5 => cases walked

/-! ### Reported chains -/

theorem exists_error_of_foldlM {step : List String → String → Except (List String) (List String)}
    {links cycle : List String} (failed : links.foldlM step done = .error cycle) :
    ∃ before, ∃ link ∈ links, step before link = .error cycle := by
  induction links generalizing done with
  | nil => cases failed
  | cons link rest inductionHypothesis =>
      rw [List.foldlM_cons] at failed
      cases first : step done link with
      | error found =>
          rw [first] at failed
          cases failed
          exact ⟨done, link, List.mem_cons_self, first⟩
      | ok middle =>
          rw [first] at failed
          obtain ⟨before, later, member, found⟩ := inductionHypothesis failed
          exact ⟨before, later, List.mem_cons_of_mem _ member, found⟩

/-- A path through the charsets, and the names that are not on it. -/
structure Trail (symbols : Table Symbol) (fresh path : List String) : Prop where
  covers : ∀ name ∈ symbols.names, name ∈ fresh ∨ name ∈ path
  distinct : (fresh ++ path).Nodup
  linked : path.IsChain (CharsetLink symbols)

/-- The charset at the end of the path names this symbol. -/
def LedTo (symbols : Table Symbol) (path : List String) (name : String) : Prop :=
  ∀ last ∈ path.getLast?, ∃ charset, symbols.get? last = some (.charset charset) ∧
    .symbol name ∈ charset.criteria

theorem isChain_append_of_ledTo {charset : Charset}
    (linked : path.IsChain (CharsetLink symbols)) (led : LedTo symbols path name)
    (isCharset : symbols.get? name = some (.charset charset)) :
    (path ++ [name]).IsChain (CharsetLink symbols) := by
  refine List.isChain_append.2 ⟨linked, List.isChain_singleton _, ?_⟩
  intro last isLast next isNext
  obtain rfl : name = next := by simpa using isNext
  obtain ⟨source, found, named⟩ := led last isLast
  exact ⟨source, charset, found, named, isCharset⟩

theorem Trail.step (trail : Trail symbols fresh path) (isFresh : name ∈ fresh)
    (linked : (path ++ [name]).IsChain (CharsetLink symbols)) :
    Trail symbols (fresh.erase name) (path ++ [name]) where
  covers := by
    intro other member
    rcases trail.covers other member with inFresh | onPath
    · by_cases same : other = name
      · exact Or.inr (by simp [same])
      · exact Or.inl ((List.mem_erase_of_ne same).2 inFresh)
    · exact Or.inr (List.mem_append_left _ onPath)
  distinct := by
    have moved : (fresh ++ path).Perm (fresh.erase name ++ (path ++ [name])) := by
      refine ((List.perm_cons_erase isFresh).append_right path).trans ?_
      refine List.perm_middle.symm.trans ?_
      exact (List.perm_append_singleton name path).symm.append_left (fresh.erase name)
    exact moved.nodup_iff.1 trail.distinct
  linked := linked

/-- Where a path meets itself again, its last part is a cycle. -/
theorem Trail.cycle (trail : Trail symbols fresh path) (onPath : name ∈ path)
    (linked : (path ++ [name]).IsChain (CharsetLink symbols)) :
    CharsetCycle symbols (path.dropWhile (fun earlier => earlier != name) ++ [name]) := by
  obtain ⟨front, between, rfl, notBefore⟩ := List.eq_append_cons_of_mem onPath
  have meets : (front ++ name :: between).dropWhile (fun earlier => earlier != name) =
      name :: between := by
    rw [List.dropWhile_append_of_pos, List.dropWhile_cons_of_neg (by simp)]
    intro earlier member
    exact bne_iff_ne.2 fun same => notBefore (same ▸ member)
  rw [meets]
  refine ⟨name, between, rfl, ?_, ?_⟩
  · exact linked.suffix ⟨front, by simp⟩
  · have onPathOnce := (List.nodup_append.1 trail.distinct).2.1
    exact (List.nodup_append.1 onPathOnce).2.1

/-- The induction is on the walk, with the path from where it began. -/
theorem cycle_of_walk {cycle : List String} (trail : Trail symbols fresh path)
    (led : LedTo symbols path name)
    (walked : walkCharsets symbols fresh path done name = .error cycle) :
    CharsetCycle symbols cycle := by
  fun_induction walkCharsets symbols fresh path done name generalizing cycle with
  | case1 => cases walked
  | case2 => cases walked
  | case3 => cases walked
  | case4 fresh path done name links found _ isFresh _ reported failed =>
      rename_i inductionHypothesis
      cases walked
      obtain ⟨charset, isCharset, rfl⟩ := charsetLinks?_eq_some_iff.1 found
      obtain ⟨before, link, member, failedLink⟩ := exists_error_of_foldlM failed
      have linked := isChain_append_of_ledTo trail.linked led isCharset
      refine inductionHypothesis before link (trail.step isFresh linked) ?_ failedLink
      intro last isLast
      obtain rfl : name = last := by simpa using isLast
      exact ⟨charset, isCharset, mem_filterMap_symbolName?.1 member⟩
  | case5 fresh path done name links found _ notFresh =>
      cases walked
      obtain ⟨charset, isCharset, rfl⟩ := charsetLinks?_eq_some_iff.1 found
      rcases trail.covers name (Table.mem_names_of_get? isCharset) with inFresh | onPath
      · exact absurd inFresh notFresh
      · exact trail.cycle onPath (isChain_append_of_ledTo trail.linked led isCharset)

end Walk

/-! ## The whole table -/

section Table

variable {symbols : Table Symbol}

theorem transGen_of_isChain {name last : String} (between : List String)
    (linked : (name :: between ++ [last]).IsChain (CharsetLink symbols)) :
    Relation.TransGen (CharsetLink symbols) name last := by
  induction between generalizing name with
  | nil => exact .single (List.isChain_cons_cons.1 linked).1
  | cons next rest inductionHypothesis =>
      obtain ⟨first, later⟩ := List.isChain_cons_cons.1 linked
      exact .head first (inductionHypothesis later)

theorem CharsetCycle.not_acyclic {names : List String} (cycle : CharsetCycle symbols names) :
    ¬CharsetsAcyclic symbols := by
  obtain ⟨name, between, rfl, linked, _⟩ := cycle
  exact fun acyclic => acyclic name (transGen_of_isChain between linked)

/-- A chain that is found is a cycle. -/
theorem cycle_of_findCharsetCycle? {cycle : List String}
    (found : findCharsetCycle? symbols = some cycle) : CharsetCycle symbols cycle := by
  unfold findCharsetCycle? at found
  simp only at found
  split at found
  · cases found
  · rename_i walked
    cases found
    obtain ⟨before, name, member, failed⟩ := exists_error_of_foldlM walked
    refine cycle_of_walk ⟨fun other isName => Or.inl isName, ?_, List.isChain_nil⟩ ?_ failed
    · simpa using symbols.nodup_names
    · intro last isLast
      cases isLast

theorem not_transGen_of_acc {name : String}
    (accessible : Acc (fun next name => CharsetLink symbols name next) name) :
    ¬Relation.TransGen (CharsetLink symbols) name name := by
  induction accessible with
  | intro name _ inductionHypothesis =>
      intro returns
      obtain ⟨next, first, back⟩ := Relation.TransGen.head'_iff.1 returns
      exact inductionHypothesis next first (Relation.TransGen.tail' back first)

theorem acyclic_of_findCharsetCycle?_eq_none (found : findCharsetCycle? symbols = none) :
    CharsetsAcyclic symbols := by
  unfold findCharsetCycle? at found
  simp only at found
  split at found
  · rename_i walked
    obtain ⟨sound, _, added⟩ := walkedTo_of_foldlM
      (fun before after name _ => harmless_of_walk) (by simp [Harmless]) walked
    intro name returns
    obtain ⟨next, ⟨charset, other, isCharset, named, target⟩, _⟩ :=
      Relation.TransGen.head'_iff.1 returns
    have member := added name (Table.mem_names_of_get? isCharset) charset isCharset
    exact not_transGen_of_acc (sound name member) returns
  · cases found

theorem findCharsetCycle?_eq_none_iff :
    findCharsetCycle? symbols = none ↔ CharsetsAcyclic symbols := by
  constructor
  · exact acyclic_of_findCharsetCycle?_eq_none
  · intro acyclic
    cases found : findCharsetCycle? symbols with
    | none => rfl
    | some cycle => exact absurd acyclic (cycle_of_findCharsetCycle? found).not_acyclic

end Table

end PlainPattern
