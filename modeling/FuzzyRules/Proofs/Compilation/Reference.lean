import FuzzyRules.Proofs.Compilation.Calls
import FuzzyRules.Proofs.Script.Text

namespace FuzzyRules

open Script

/-! Rulebases and antecedents refer to universes that are announced further up
in the same script. -/

section Splitting

variable {α β : Type}

private theorem split_of_append {first second earlier later : List α} {a : α}
    (split : first ++ second = earlier ++ a :: later) :
    (∃ rest, first = earlier ++ a :: rest ∧ later = rest ++ second) ∨
      ∃ rest, earlier = first ++ rest ∧ second = rest ++ a :: later := by
  obtain ⟨rest, isEarlier, isSecond⟩ | ⟨rest, isFirst, isLater⟩ :=
    List.append_eq_append_iff.mp split
  · exact Or.inr ⟨rest, isEarlier, isSecond⟩
  · cases rest with
    | nil => exact Or.inr ⟨[], by simpa using isFirst.symm, isLater.symm⟩
    | cons b rest =>
        obtain ⟨rfl, rfl⟩ := List.cons.inj isLater
        exact Or.inl ⟨rest, isFirst, rfl⟩

private theorem split_of_flatMap {f : α → List β} {list : List α}
    {earlier later : List β} {b : β}
    (split : list.flatMap f = earlier ++ b :: later) :
    ∃ before a after inside rest, list = before ++ a :: after ∧
      f a = inside ++ b :: rest ∧
      earlier = before.flatMap f ++ inside ∧
        later = rest ++ after.flatMap f := by
  induction list generalizing earlier with
  | nil => simp at split
  | cons a others ih =>
      rw [List.flatMap_cons] at split
      obtain ⟨rest, found, isLater⟩ | ⟨rest, isEarlier, isOthers⟩ :=
        split_of_append split
      · exact ⟨[], a, others, earlier, rest, rfl, found, rfl, isLater⟩
      · obtain ⟨before, c, after, inside, last, rfl, found, rfl, isLater⟩ :=
          ih isOthers
        refine ⟨a :: before, c, after, inside, last, rfl, found, ?_, isLater⟩
        rw [isEarlier, List.flatMap_cons, List.append_assoc]

/-- What is selected from a list keeps its order, so it is found at the number
of those before it. -/
theorem getElem?_filterMap_of_split {f : α → Option β}
    {list earlier later : List α} {a : α} {b : β}
    (split : list = earlier ++ a :: later) (selected : f a = some b) :
    (list.filterMap f)[(earlier.filterMap f).length]? = some b := by
  rw [split, List.filterMap_append, List.filterMap_cons, selected]
  simp

end Splitting

namespace Script

/-- The ids under which lines announce universes of a name. -/
def announcedIds (lines : Script) (name : String) : Set Nat :=
  {id | ∃ elements, .call (.initUniverse id elements name) ∈ lines}

private theorem mem_announcedIds_iff {lines : Script} {name : String}
    {id : Nat} :
    id ∈ announcedIds lines name ↔
      ∃ elements, (id, elements, name) ∈ lines.filterMap Line.universe? := by
  simp only [announcedIds, Set.mem_ofPred_eq, List.mem_filterMap,
    Line.universe?_eq_some_iff, exists_eq_right]

private theorem announcedIds_append_left {first : Script}
    (none : first.filterMap Line.universe? = []) (second : Script)
    (name : String) :
    announcedIds (first ++ second) name = announcedIds second name := by
  ext id
  rw [mem_announcedIds_iff, mem_announcedIds_iff, List.filterMap_append, none,
    List.nil_append]

/-- Whether a line announces a rulebase or belongs to its rules. -/
def Line.isRulebasePart : Line → Bool
  | .call (.initRulebase ..) | .call (.addRule ..)
  | .call (.addAntecedent ..) => true
  | _ => false

private theorem not_mem_opening {line : Line}
    (part : line.isRulebasePart = true) (universes rulebases : Nat) :
    line ∉ opening universes rulebases := by
  intro member
  simp only [opening, initLines, List.mem_append, List.mem_cons,
    List.not_mem_nil, or_false] at member
  obtain (rfl | rfl) | rfl | rfl := member <;> cases part

private theorem not_mem_closing {line : Line}
    (part : line.isRulebasePart = true) : line ∉ closing := by
  intro member
  simp only [closing, List.mem_cons, List.not_mem_nil, or_false] at member
  obtain rfl | rfl | rfl := member <;> cases part

private theorem split_of_program {universes rulebases : Nat}
    {body earlier later : Script} {line : Line}
    (part : line.isRulebasePart = true)
    (split : program universes rulebases body = earlier ++ line :: later) :
    ∃ first last, body = first ++ line :: last ∧
      earlier = opening universes rulebases ++ first ∧
      later = last ++ closing := by
  have framed : (opening universes rulebases ++ body) ++ closing =
      earlier ++ line :: later := split
  obtain ⟨last, isBody, isLater⟩ | ⟨rest, _, isClosing⟩ :=
    split_of_append framed
  · obtain ⟨rest, isOpening, _⟩ | ⟨first, isEarlier, isBody⟩ :=
      split_of_append isBody
    · have outside := not_mem_opening part universes rulebases
      rw [isOpening] at outside
      exact absurd (List.mem_append_right _ List.mem_cons_self) outside
    · exact ⟨first, last, isBody, isEarlier, isLater⟩
  · have outside := not_mem_closing part
    rw [isClosing] at outside
    exact absurd (List.mem_append_right _ List.mem_cons_self) outside

end Script

private theorem Universe.not_mem_lines {line : Line}
    (part : line.isRulebasePart = true) (u : Universe) : line ∉ u.lines := by
  intro member
  rw [Universe.lines, List.cons_append, List.mem_cons, List.mem_append,
    List.mem_map, List.mem_singleton] at member
  obtain rfl | ⟨element, _, rfl⟩ | rfl := member <;> cases part

private theorem Rulebase.exists_lines_eq_cons (scope : Scope)
    (rulebase : Rulebase) :
    ∃ body, rulebase.lines scope =
      .call (.initRulebase rulebase.id rulebase.rules.length
        rulebase.consequent rulebase.name) :: body := by
  rw [Rulebase.lines]
  split <;> exact ⟨_, rfl⟩

namespace Progress

private theorem consequent_rulebaseReading (progress : Progress) :
    progress.rulebaseReading.value.consequent =
      progress.claimed.universeId? progress.name := by
  rw [rulebaseReading, Rulebase.readBody]
  split
  · next unmatched => exact unmatched.symm
  · next matched => exact matched.symm

private theorem declared_of_mem_lines {progress : Progress} {line : Line}
    (member : line ∈ progress.declared.flatMap Declaration.lines)
    (part : line.isRulebasePart = true) :
    progress.declared =
      [.ofRulebase progress.claimed progress.rulebaseReading.value] := by
  rw [declared] at member ⊢
  split at member
  · rw [List.flatMap_singleton] at member
    exact absurd member (Universe.not_mem_lines part _)
  · next notUniverse =>
      split at member
      · next isRulebase => rw [if_neg notUniverse, if_pos isRulebase]
      · cases member

/-- Where a line of a rulebase stands among the lines of all declarations: the
state in which the rulebase is declared, and the lines of the rulebase on both
sides. -/
structure Site (passed : List Progress) (line : Line) where
  before : List Progress
  state : Progress
  after : List Progress
  inside : Script
  rest : Script
  passed_eq : passed = before ++ state :: after
  declared_eq : state.declared =
    [.ofRulebase state.claimed state.rulebaseReading.value]
  lines_eq : state.rulebaseReading.value.lines state.claimed =
    inside ++ line :: rest

namespace Site

variable {passed : List Progress} {line : Line} (site : Site passed line)

def earlier : Script :=
  (site.before.flatMap declared).flatMap Declaration.lines ++ site.inside

def later : Script :=
  site.rest ++ (site.after.flatMap declared).flatMap Declaration.lines

end Site

private theorem exists_site {passed : List Progress} {earlier later : Script}
    {line : Line} (part : line.isRulebasePart = true)
    (split : (passed.flatMap declared).flatMap Declaration.lines =
      earlier ++ line :: later) :
    ∃ site : Site passed line, earlier = site.earlier ∧ later = site.later := by
  rw [List.flatMap_assoc] at split
  obtain ⟨before, state, after, inside, rest, isPassed, found, isEarlier,
    isLater⟩ := split_of_flatMap split
  have isDeclared := declared_of_mem_lines
    (by rw [found]; exact List.mem_append_right _ List.mem_cons_self) part
  rw [← List.flatMap_assoc] at isEarlier isLater
  rw [isDeclared, List.flatMap_singleton] at found
  exact ⟨⟨before, state, after, inside, rest, isPassed, isDeclared, found⟩,
    isEarlier, isLater⟩

namespace Site

variable {passed : List Progress} {line : Line} (site : Site passed line)

theorem flatMap_declared :
    passed.flatMap declared = site.before.flatMap declared ++
      .ofRulebase site.state.claimed site.state.rulebaseReading.value ::
        site.after.flatMap declared := by
  refine (congrArg (List.flatMap declared) site.passed_eq).trans ?_
  rw [List.flatMap_append, List.flatMap_cons, site.declared_eq]
  rfl

theorem consistent :
    (Declaration.ofRulebase site.state.claimed
      site.state.rulebaseReading.value).Consistent := by
  apply site.state.declared_consistent
  rw [site.declared_eq]
  exact List.mem_cons_self

/-- The lines of a rulebase announce no universe. -/
theorem filterMap_universe?_inside :
    site.inside.filterMap Line.universe? = [] := by
  have none := Declaration.filterMap_universe? site.consistent
  rw [Declaration.lines, site.lines_eq, List.filterMap_append] at none
  exact (List.append_eq_nil_iff.mp none).1

section Reached

variable {start finish : Progress} (reaches : Reaches start passed finish)
  (empty : start.scope = {})

include reaches

theorem splits_run : Reaches start site.before site.state ∧
    Reaches site.state (site.state :: site.after) finish := by
  have parted := site.passed_eq ▸ reaches
  exact parted.split

include empty

theorem lawful : site.state.scope.Lawful := by
  apply (site.splits_run reaches).1.lawful
  rw [empty]
  exact .empty

theorem filterMap_universe?_earlier :
    site.earlier.filterMap Line.universe? =
      site.state.scope.universes.map fun u =>
        (u.id, u.elements.length, u.name) := by
  rw [earlier, List.filterMap_append, site.filterMap_universe?_inside,
    List.append_nil, (site.splits_run reaches).1.universes_eq, empty,
    List.nil_append]
  exact filterMap_universe?_lines consistent_of_mem_declared

/-- Up to a line of a rulebase, universes are announced with their places in the
scope. -/
theorem announcedIds_eq (name : String) :
    announcedIds site.earlier name =
      places (site.state.scope.universes.map Universe.name) name := by
  have lawful := site.lawful reaches empty
  ext id
  rw [mem_announcedIds_iff, site.filterMap_universe?_earlier reaches empty]
  simp only [List.mem_map, Prod.mk.injEq, places, Set.mem_ofPred_eq,
    List.getElem?_map, Option.map_eq_some_iff]
  constructor
  · rintro ⟨_, u, member, isId, _, named⟩
    obtain ⟨place, found⟩ := List.mem_iff_getElem?.mp member
    rw [← isId, lawful.id_eq found]
    exact ⟨u, found, named⟩
  · rintro ⟨u, found, named⟩
    exact ⟨_, u, List.mem_of_getElem? found, lawful.id_eq found, rfl, named⟩

end Reached

end Site

section Announcement

variable {passed : List Progress} {id rules : Nat} {consequent : Option Nat}
  {name : String}
  (site : Site passed (.call (.initRulebase id rules consequent name)))

include site

theorem Site.announcement_eq :
    site.inside = [] ∧ rules = site.state.rulebaseReading.value.rules.length ∧
      consequent = site.state.claimed.universeId? name ∧
        name = site.state.name := by
  obtain ⟨body, isCons⟩ :=
    site.state.rulebaseReading.value.exists_lines_eq_cons site.state.claimed
  have found :=
    getElem?_filterMap_of_split (f := Line.rulebase?) site.lines_eq rfl
  have announced := Declaration.filterMap_rulebase? site.consistent
  rw [Declaration.lines] at announced
  rw [announced] at found
  obtain ⟨first, _, isRules, isConsequent, isName⟩ :
      (site.inside.filterMap Line.rulebase?).length = 0 ∧
      site.state.rulebaseReading.value.id = id ∧
      site.state.rulebaseReading.value.rules.length = rules ∧
      site.state.rulebaseReading.value.consequent = consequent ∧
      site.state.rulebaseReading.value.name = name := by
    simpa [Declaration.rulebase?, List.getElem?_singleton] using found
  have named : name = site.state.name :=
    isName.symm.trans site.state.name_rulebaseReading
  have resolved : consequent = site.state.claimed.universeId? site.state.name :=
    isConsequent.symm.trans site.state.consequent_rulebaseReading
  refine ⟨?_, isRules.symm, resolved.trans (congrArg _ named.symm), named⟩
  cases inside : site.inside with
  | nil => rfl
  | cons line others =>
      have isFirst := site.lines_eq
      rw [isCons, inside, List.cons_append] at isFirst
      rw [inside, ← (List.cons.inj isFirst).1] at first
      cases first

variable {start finish : Progress} (reaches : Reaches start passed finish)
  (empty : start.scope = {})

include reaches empty

/-- A rulebase has the least announced id of its name for a consequent, or it is
a placeholder. -/
theorem Site.consequent_cases :
    (consequent = none ∧ rules = 0 ∧ announcedIds site.earlier name = ∅ ∧
      site.rest = [.blank]) ∨
      ∃ least, consequent = some least ∧
        IsLeast (announcedIds site.earlier name) least := by
  obtain ⟨isFirst, isRules, resolved, _⟩ := site.announcement_eq
  have lawful := site.lawful reaches empty
  have isLines := site.lines_eq
  have consistent := site.consistent
  rw [site.announcedIds_eq reaches empty]
  cases found : site.state.scope.universeId? name with
  | none =>
      have unmatched : site.state.rulebaseReading.value.consequent = none := by
        rw [consequent_rulebaseReading, ← site.announcement_eq.2.2.2]
        exact found
      have absent := (lawful.universeId?_eq_none_iff name).mp found
      refine Or.inl ⟨resolved.trans found, ?_, ?_, ?_⟩
      · rw [isRules, consistent unmatched]
        rfl
      · rw [Set.eq_empty_iff_forall_notMem]
        intro place isAt
        exact absent (List.mem_of_getElem? isAt)
      · rw [Rulebase.lines, unmatched, isFirst] at isLines
        exact (List.cons.inj isLines).2.symm
  | some least =>
      exact Or.inr ⟨least, resolved.trans found,
        (lawful.universeId?_eq_some_iff name least).mp found⟩

end Announcement

/-- A rule is added only after its rulebase was announced. -/
theorem rulebase?_ne_nil_of_addRule {states : List Progress}
    {earlier later : Script} {index antecedents : Nat}
    (split : (states.flatMap declared).flatMap Declaration.lines =
      earlier ++ .call (.addRule index antecedents) :: later) :
    earlier.filterMap Line.rulebase? ≠ [] := by
  obtain ⟨site, rfl, _⟩ := exists_site rfl split
  obtain ⟨body, isCons⟩ :=
    site.state.rulebaseReading.value.exists_lines_eq_cons site.state.claimed
  have isFirst := site.lines_eq
  rw [isCons] at isFirst
  rw [Site.earlier, List.filterMap_append]
  cases inside : site.inside with
  | nil =>
      rw [inside] at isFirst
      cases isFirst
  | cons line others =>
      rw [inside, List.cons_append] at isFirst
      rw [← (List.cons.inj isFirst).1]
      simp [Line.rulebase?]

theorem Site.rulebase?_ne_nil_of_rest_eq_blank {passed : List Progress}
    {line : Line} (site : Site passed line) (isRest : site.rest = [.blank])
    {between rest : Script} {index antecedents : Nat}
    (split : site.later ++ closing =
      between ++ .call (.addRule index antecedents) :: rest) :
    between.filterMap Line.rulebase? ≠ [] := by
  rw [Site.later, isRest, List.append_assoc] at split
  obtain ⟨_, isBlank, _⟩ | ⟨others, rfl, later⟩ := split_of_append split
  · have member : Line.call (.addRule index antecedents) ∈ [Line.blank] := by
      rw [isBlank]
      exact List.mem_append_right _ List.mem_cons_self
    cases List.mem_singleton.mp member
  · obtain ⟨_, inLines, _⟩ | ⟨_, _, isClosing⟩ := split_of_append later
    · rw [List.filterMap_append]
      exact rulebase?_ne_nil_of_addRule inLines
    · have outside : Line.call (.addRule index antecedents) ∉ closing :=
        not_mem_closing rfl
      rw [isClosing] at outside
      exact absurd (List.mem_append_right _ List.mem_cons_self) outside

private theorem length_filterMap_target?_lines {declarations : List Declaration}
    (consistent : ∀ declaration ∈ declarations, declaration.Consistent) :
    ((declarations.flatMap Declaration.lines).filterMap Line.target?).length =
      (declarations.flatMap Declaration.antecedents).length := by
  induction declarations with
  | nil => rfl
  | cons declaration others ih =>
      obtain ⟨first, rest⟩ := List.forall_mem_cons.mp consistent
      rw [List.flatMap_cons, List.flatMap_cons, List.filterMap_append,
        List.length_append, List.length_append,
        Declaration.length_filterMap_target? first, ih rest]

/-- The antecedents of a run are added in order, each as what it points to where
it stands. -/
theorem Site.exists_antecedent {passed : List Progress}
    {universeId elementIndex : Option Nat}
    (site : Site passed (.call (.addAntecedent universeId elementIndex))) :
    ∃ antecedent, ((passed.flatMap declared).flatMap Declaration.antecedents)[
        (site.earlier.filterMap Line.target?).length]? = some antecedent ∧
      site.state.scope.resolve antecedent = ⟨universeId, elementIndex⟩ := by
  have found :=
    getElem?_filterMap_of_split (f := Line.target?) site.lines_eq rfl
  rw [Declaration.filterMap_target? site.consistent, List.getElem?_map,
    Option.map_eq_some_iff] at found
  obtain ⟨antecedent, isAt, resolved⟩ := found
  refine ⟨antecedent, ?_, resolved⟩
  obtain ⟨inside, _⟩ := List.getElem?_eq_some_iff.mp isAt
  have place : (site.earlier.filterMap Line.target?).length =
      ((site.before.flatMap declared).flatMap Declaration.antecedents).length +
        (site.inside.filterMap Line.target?).length := by
    rw [Site.earlier, List.filterMap_append, List.length_append,
      length_filterMap_target?_lines consistent_of_mem_declared]
  rw [place, site.flatMap_declared, List.flatMap_append, List.flatMap_cons,
    List.getElem?_append_right (Nat.le_add_right _ _), Nat.add_sub_cancel_left,
    List.getElem?_append_left inside, isAt]

end Progress

/-- What is right to add for an antecedent behind some lines: nothing, if they
announce no universe of its name, and otherwise the first one that they do, with
the first element of the condition's name. -/
def Target.Grounded (universes : List Universe) (earlier : Script)
    (antecedent : Antecedent) (target : Target) : Prop :=
  (target = ⟨none, none⟩ ∧ announcedIds earlier antecedent.subject = ∅) ∨
    ∃ u ∈ universes, target.universeId = some u.id ∧
      u.name = antecedent.subject ∧
      .call (.initUniverse u.id u.elements.length u.name) ∈ earlier ∧
      IsLeast (announcedIds earlier antecedent.subject) u.id ∧
      ((target.elementIndex = none ∧
        antecedent.condition ∉ u.elements.map Element.name) ∨
        ∃ index, target.elementIndex = some index ∧ index < u.elements.length ∧
          IsLeast
            (places (u.elements.map Element.name) antecedent.condition) index)

theorem Target.Grounded.append_left {universes : List Universe}
    {first second : Script} {antecedent : Antecedent} {target : Target}
    (none : first.filterMap Line.universe? = [])
    (grounded : Grounded universes second antecedent target) :
    Grounded universes (first ++ second) antecedent target := by
  rw [Grounded, announcedIds_append_left none]
  obtain unknown | ⟨u, declared, isId, named, announced, found⟩ := grounded
  · exact Or.inl unknown
  · exact Or.inr ⟨u, declared, isId, named,
      List.mem_append_right _ announced, found⟩

namespace Progress

theorem Site.grounded {passed : List Progress} {line : Line}
    (site : Site passed line) {start finish : Progress}
    (reaches : Reaches start passed finish) (empty : start.scope = {})
    (antecedent : Antecedent) :
    (site.state.scope.resolve antecedent).Grounded finish.scope.universes
      site.earlier antecedent := by
  have lawful := site.lawful reaches empty
  rw [Target.Grounded, site.announcedIds_eq reaches empty]
  obtain ⟨unknown, isTarget⟩ | ⟨u, isUniverse, known, named, isTarget⟩ :=
    lawful.resolve_cases antecedent
  · refine Or.inl ⟨isTarget, ?_⟩
    rw [Set.eq_empty_iff_forall_notMem]
    intro place isAt
    exact (lawful.universeId?_eq_none_iff _).mp unknown
      (List.mem_of_getElem? isAt)
  · have declared : u ∈ site.state.scope.universes :=
      List.mem_of_getElem? isUniverse
    refine Or.inr ⟨u, ?_, by rw [isTarget], named, ?_,
      (lawful.universeId?_eq_some_iff _ _).mp known, ?_⟩
    · rw [(site.splits_run reaches).2.universes_eq]
      exact List.mem_append_left _ declared
    · have announced : (u.id, u.elements.length, u.name) ∈
          site.earlier.filterMap Line.universe? := by
        rw [site.filterMap_universe?_earlier reaches empty]
        exact List.mem_map_of_mem declared
      obtain ⟨line, member, isLine⟩ := List.mem_filterMap.mp announced
      rwa [Line.universe?_eq_some_iff.mp isLine] at member
    · rw [isTarget]
      cases found : u.elementIndex? antecedent.condition with
      | none =>
          exact Or.inl ⟨rfl,
            (findIdx?_eq_none_iff_not_mem u.elements Element.name _).mp found⟩
      | some index =>
          obtain ⟨inside, _⟩ := List.findIdx?_eq_some_iff_findIdx_eq.mp found
          exact Or.inr ⟨index, rfl, inside,
            (findIdx?_eq_some_iff_isLeast u.elements Element.name _ index).mp
              found⟩

end Progress

/-- In a compiled script, every rulebase either has the least id of its name
that is announced further up for a consequent, or it is announced as empty, no
rule follows before the next rulebase, and no universe of its name is announced
further up. The antecedents are those of the run in order, and each refers to
what is announced further up. -/
theorem compiled_references_grounded {tokens : List Token} {script : Script}
    (compiled : (compile tokens).result = .ok script) :
    ∃ finish, (Progress.start tokens).run = .ok finish ∧
      (∀ earlier later id rules consequent name,
        script = earlier ++
          .call (.initRulebase id rules consequent name) :: later →
        (consequent = none ∧ rules = 0 ∧ announcedIds earlier name = ∅ ∧
          ∀ between index antecedents rest,
            later = between ++ .call (.addRule index antecedents) :: rest →
            between.filterMap Line.rulebase? ≠ []) ∨
        ∃ least, consequent = some least ∧
          IsLeast (announcedIds earlier name) least) ∧
      ∀ earlier later universeId elementIndex,
        script = earlier ++
          .call (.addAntecedent universeId elementIndex) :: later →
        ∃ antecedent,
          ((Progress.start tokens).declarations.flatMap
            Declaration.antecedents)[(earlier.filterMap Line.target?).length]? =
            some antecedent ∧
          Target.Grounded finish.scope.universes earlier antecedent
            ⟨universeId, elementIndex⟩ := by
  obtain ⟨finish, run, rfl⟩ := exists_run_of_compile compiled
  obtain ⟨passed, reaches, isDeclared⟩ :=
    (Progress.ran_of_run run).exists_reaches
  have written : finish.lines.toList =
      (passed.flatMap Progress.declared).flatMap Declaration.lines :=
    reaches.lines_eq
  refine ⟨finish, run, ?_, ?_⟩
  · intro earlier later id rules consequent name split
    obtain ⟨first, last, isBody, rfl, rfl⟩ := split_of_program rfl split
    rw [written] at isBody
    obtain ⟨site, rfl, rfl⟩ := Progress.exists_site rfl isBody
    rw [announcedIds_append_left rfl]
    obtain ⟨unmatched, noRules, none, isRest⟩ | matched :=
      site.consequent_cases reaches rfl
    · refine Or.inl ⟨unmatched, noRules, none, ?_⟩
      intro between index antecedents rest later
      exact site.rulebase?_ne_nil_of_rest_eq_blank isRest later
    · exact Or.inr matched
  · intro earlier later universeId elementIndex split
    obtain ⟨first, last, isBody, rfl, rfl⟩ := split_of_program rfl split
    rw [written] at isBody
    obtain ⟨site, rfl, rfl⟩ := Progress.exists_site rfl isBody
    obtain ⟨antecedent, isAt, resolved⟩ := site.exists_antecedent
    have grounded := site.grounded reaches rfl antecedent
    rw [resolved] at grounded
    refine ⟨antecedent, ?_, ?_⟩
    · rw [isDeclared, List.filterMap_append]
      exact isAt
    · exact grounded.append_left rfl

/-- A rulebase without a universe, two universes of one name, and a rulebase
that breaks off after naming an element of each of the two. -/
def shadowed : List Token :=
  [.keyword "rulebase", ⟨.literal, "v"⟩, .keyword "end", .keyword "universe",
    ⟨.literal, "u"⟩, ⟨.literal, "a"⟩, ⟨.literal, "0"⟩, ⟨.literal, "1"⟩,
    .keyword "end", .keyword "universe", ⟨.literal, "u"⟩, ⟨.literal, "b"⟩,
    .keyword "is", .keyword "is", .keyword "end", .keyword "rulebase",
    ⟨.literal, "u"⟩, .keyword "rule", ⟨.literal, "c"⟩, .keyword "when",
    ⟨.literal, "u"⟩, .keyword "is", ⟨.literal, "a"⟩, .keyword "and",
    ⟨.literal, "u"⟩, .keyword "is", ⟨.literal, "b"⟩]

def shadowedUniverses : Script :=
  opening 2 2 ++
    [.call (.initRulebase 0 0 none "v"), .blank, .call (.initUniverse 0 1 "u"),
      (Element.mk "a" (Coordinate.value "0") (Coordinate.value "1")).line,
      .blank, .call (.initUniverse 1 1 "u"), (Element.mk "b" .nan .nan).line,
      .blank]

def shadowedRules : Script :=
  [.call (.addRule 0 2), .call (.addAntecedent (some 0) (some 0))]

/-- The second antecedent names an element of the second universe only, so it
has no index. -/
theorem compiled_references_shadowed :
    (compile shadowed).result = .ok (shadowedUniverses ++
      .call (.initRulebase 1 1 (some 0) "u") :: shadowedRules ++
      .call (.addAntecedent (some 0) none) :: .blank :: .blank :: closing) ∧
    IsLeast (announcedIds shadowedUniverses "u") 0 ∧
    ∃ finish, (Progress.start shadowed).run = .ok finish ∧
      Target.Grounded finish.scope.universes
        (shadowedUniverses ++
          .call (.initRulebase 1 1 (some 0) "u") :: shadowedRules) ⟨"u", "b"⟩
        ⟨some 0, none⟩ := by
  have compiled : (compile shadowed).result = .ok (shadowedUniverses ++
      .call (.initRulebase 1 1 (some 0) "u") :: shadowedRules ++
      .call (.addAntecedent (some 0) none) :: .blank :: .blank :: closing) := by
    decide +kernel
  obtain ⟨finish, ran, rulebases, antecedents⟩ :=
    compiled_references_grounded compiled
  refine ⟨compiled, ?_, finish, ran, ?_⟩
  · obtain ⟨missing, _⟩ | ⟨least, found, isLeast⟩ :=
      rulebases _ _ _ _ _ _ (List.append_assoc _ _ _)
    · cases missing
    · cases found
      exact isLeast
  · obtain ⟨antecedent, isAt, grounded⟩ := antecedents _ _ _ _ rfl
    have second : ((Progress.start shadowed).declarations.flatMap
        Declaration.antecedents)[1]? =
        some ⟨"u", "b"⟩ := by
      decide +kernel
    cases second.symm.trans isAt
    exact grounded

end FuzzyRules
