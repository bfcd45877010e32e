import FuzzyRules.Scope
import Mathlib

namespace FuzzyRules

def places (names : List String) (name : String) : Set Nat :=
  {place | names[place]? = some name}

section FirstPlace

variable {α : Type} (list : List α) (nameOf : α → String) (name : String)

theorem findIdx?_eq_some_iff_isLeast (place : Nat) :
    list.findIdx? (fun a => nameOf a = name) = some place ↔
      IsLeast (places (list.map nameOf) name) place := by
  rw [List.findIdx?_eq_some_iff_getElem]
  constructor
  · intro ⟨inside, found, before⟩
    refine ⟨by simpa [places, inside] using found, ?_⟩
    intro other isOther
    by_contra earlier
    obtain ⟨a, isAt, named⟩ : ∃ a, list[other]? = some a ∧ nameOf a = name := by
      simpa [places] using isOther
    obtain ⟨_, rfl⟩ := List.getElem?_eq_some_iff.mp isAt
    exact before other (Nat.lt_of_not_le earlier) (by simpa using named)
  · intro ⟨isAt, least⟩
    obtain ⟨a, found, named⟩ :
        ∃ a, list[place]? = some a ∧ nameOf a = name := by
      simpa [places] using isAt
    obtain ⟨inside, rfl⟩ := List.getElem?_eq_some_iff.mp found
    refine ⟨inside, by simpa using named, ?_⟩
    intro other earlier isNamed
    have otherNamed : other ∈ places (list.map nameOf) name := by
      have otherInside : other < list.length := earlier.trans inside
      simpa [places, otherInside] using isNamed
    exact absurd (least otherNamed) (Nat.not_le_of_lt earlier)

theorem findIdx?_eq_none_iff_not_mem :
    list.findIdx? (fun a => nameOf a = name) = none ↔
      name ∉ list.map nameOf := by
  simp [List.findIdx?_eq_none_iff]

end FirstPlace

namespace Scope

/-- The list of universes and the ids of their names are in step. -/
structure Lawful (scope : Scope) : Prop where
  id_eq : ∀ {place : Nat} {u : Universe}, scope.universes[place]? = some u →
    u.id = place
  universeId?_eq : ∀ name,
    scope.universeId? name = scope.universes.findIdx? fun u => u.name = name

theorem universeId?_declare (scope : Scope) (name : String)
    (elements : List Element) (other : String) :
    (scope.declare name elements).universeId? other =
      (scope.universeId? other).or
        (if name = other then some scope.universes.length else none) := by
  rw [universeId?, universeId?, declare]
  cases known : scope.universeIds.lookup name with
  | none =>
      by_cases same : name = other
      · subst same
        simp [known]
      · have different : (other == name) = false := by simpa using Ne.symm same
        simp [List.lookup_cons, different, same]
  | some id =>
      by_cases same : name = other
      · subst same
        simp [known]
      · simp [same]

namespace Lawful

theorem empty : Lawful {} :=
  ⟨fun found => by simp at found, fun _ => rfl⟩

variable {scope : Scope} (lawful : scope.Lawful)

include lawful

theorem declare (name : String) (elements : List Element) :
    (scope.declare name elements).Lawful where
  id_eq := by
    intro place u found
    rw [Scope.declare, List.getElem?_append] at found
    split at found
    · exact lawful.id_eq found
    · next outside =>
        obtain ⟨isLast, rfl⟩ : place - scope.universes.length = 0 ∧
            scope.newUniverse name elements = u := by
          simpa [List.getElem?_singleton] using found
        change scope.universes.length = place
        omega
  universeId?_eq := by
    intro other
    rw [universeId?_declare, lawful.universeId?_eq, Scope.declare,
      List.findIdx?_append]
    congr 1
    by_cases same : name = other
    · simp [newUniverse, same]
    · simp [newUniverse, same]

theorem withRulebases (names : List String) :
    Lawful { scope with rulebases := names } :=
  ⟨lawful.id_eq, lawful.universeId?_eq⟩

end Lawful

/-- Adds a rulebase name unless it is there, and tells whether it was added. -/
def addRulebase (name : String) : EStateM CompileError Scope Bool :=
  modifyGet fun scope =>
    if name ∈ scope.rulebases then (false, scope)
    else (true, { scope with rulebases := scope.rulebases ++ [name] })

/-- A claim made in place. The id is taken first, and the name is added before
it is known to be new; the scope is left as it then is, even by a failure. -/
def claimInPlace (name : String) : EStateM CompileError Scope Nat := do
  let id := (← get).rulebases.length
  if ← addRulebase name then return id else throw (.duplicateRulebase name)

theorem run_addRulebase (scope : Scope) (name : String) :
    (addRulebase name).run scope =
      if name ∈ scope.rulebases then .ok false scope
      else .ok true { scope with rulebases := scope.rulebases ++ [name] } := by
  rw [addRulebase, EStateM.run_modifyGet]
  split <;> rfl

theorem run_claimInPlace (scope : Scope) (name : String) :
    (claimInPlace name).run scope =
      match scope.claim name with
      | .error error => .error error scope
      | .ok (id, claimed) => .ok id claimed := by
  rw [claimInPlace, EStateM.run_bind, EStateM.run_get, claim]
  dsimp only
  rw [EStateM.run_bind, run_addRulebase]
  by_cases repeated : name ∈ scope.rulebases
  · rw [if_pos repeated, if_pos repeated]
    rfl
  · rw [if_neg repeated, if_neg repeated]
    rfl

inductive Operation where
  | declare (name : String) (elements : List Element)
  | claim (name : String)

def Operation.declared? : Operation → Option (String × List Element)
  | declare name elements => some (name, elements)
  | claim _ => none

/-- A scope, and the claims that succeeded on the way to it with the ids that
they were given. -/
structure History where
  scope : Scope := {}
  claims : List (String × Nat) := []

namespace History

def perform (history : History) : Operation → History
  | .declare name elements =>
      { history with scope := history.scope.declare name elements }
  | .claim name =>
      match (claimInPlace name).run history.scope with
      | .error _ scope => { history with scope := scope }
      | .ok id scope => ⟨scope, history.claims ++ [(name, id)]⟩

def of (operations : List Operation) : History :=
  operations.foldl perform {}

theorem of_append (operations : List Operation) (operation : Operation) :
    of (operations ++ [operation]) = (of operations).perform operation := by
  rw [of, List.foldl_append]
  rfl

structure Lawful (history : History) : Prop where
  scope : history.scope.Lawful
  names : history.claims.map Prod.fst = history.scope.rulebases
  ids : history.claims.map Prod.snd = List.range history.claims.length
  distinct : history.scope.rulebases.Nodup

theorem Lawful.empty : Lawful {} :=
  ⟨.empty, rfl, rfl, List.nodup_nil⟩

section Claims

variable {history : History} {name : String}

theorem perform_claim_of_mem (repeated : name ∈ history.scope.rulebases) :
    history.perform (.claim name) = history := by
  rw [perform, run_claimInPlace, Scope.claim, if_pos repeated]

theorem perform_claim_of_not_mem (fresh : name ∉ history.scope.rulebases) :
    history.perform (.claim name) =
      ⟨{ history.scope with rulebases := history.scope.rulebases ++ [name] },
        history.claims ++ [(name, history.scope.rulebases.length)]⟩ := by
  rw [perform, run_claimInPlace, Scope.claim, if_neg fresh]

end Claims

namespace Lawful

variable {history : History} (lawful : history.Lawful)

include lawful

theorem length_claims :
    history.claims.length = history.scope.rulebases.length := by
  rw [← lawful.names, List.length_map]

theorem perform (operation : Operation) :
    (history.perform operation).Lawful := by
  cases operation with
  | declare name elements =>
      exact ⟨lawful.scope.declare name elements, lawful.names, lawful.ids,
        lawful.distinct⟩
  | claim name =>
      by_cases repeated : name ∈ history.scope.rulebases
      · rw [perform_claim_of_mem repeated]
        exact lawful
      · rw [perform_claim_of_not_mem repeated]
        refine ⟨lawful.scope.withRulebases _, ?_, ?_, ?_⟩
        · rw [List.map_append, lawful.names]
          rfl
        · rw [List.map_append, lawful.ids, List.length_append,
            lawful.length_claims]
          exact List.range_succ.symm
        · rw [List.nodup_append]
          refine ⟨lawful.distinct, List.nodup_singleton name, ?_⟩
          intro claimed member other isName same
          rw [List.mem_singleton] at isName
          exact repeated (isName ▸ same ▸ member)

end Lawful

theorem universes_perform (history : History) (operation : Operation) :
    (history.perform operation).scope.universes.map
      (fun u => (u.name, u.elements)) =
      history.scope.universes.map (fun u => (u.name, u.elements)) ++
        operation.declared?.toList := by
  cases operation with
  | declare name elements =>
      rw [perform, Scope.declare, List.map_append]
      rfl
  | claim name =>
      by_cases repeated : name ∈ history.scope.rulebases
      · rw [perform_claim_of_mem repeated]
        exact (List.append_nil _).symm
      · rw [perform_claim_of_not_mem repeated]
        exact (List.append_nil _).symm

theorem universes_of (operations : List Operation) :
    (of operations).scope.universes.map (fun u => (u.name, u.elements)) =
      operations.filterMap Operation.declared? := by
  induction operations using List.reverseRecOn with
  | nil => rfl
  | append_singleton operations operation ih =>
      rw [of_append, universes_perform, ih, List.filterMap_append]
      cases operation <;> rfl

theorem lawful_of (operations : List Operation) : (of operations).Lawful := by
  rw [of]
  apply List.foldlRecOn operations perform Lawful.empty
  intro history lawful operation _
  exact lawful.perform operation

end History

namespace Lawful

variable {scope : Scope} (lawful : scope.Lawful)

include lawful

theorem universe?_of_lt {place : Nat}
    (inside : place < scope.universes.length) :
    scope.universes[place].id = place ∧
      scope.universe? place = some scope.universes[place] := by
  have found : scope.universes[place]? = some scope.universes[place] :=
    List.getElem?_eq_getElem inside
  exact ⟨lawful.id_eq found, found⟩

theorem universeId?_eq_some_iff (name : String) (place : Nat) :
    scope.universeId? name = some place ↔
      IsLeast (places (scope.universes.map Universe.name) name) place := by
  rw [lawful.universeId?_eq]
  exact findIdx?_eq_some_iff_isLeast scope.universes Universe.name name place

theorem universeId?_eq_none_iff (name : String) :
    scope.universeId? name = none ↔
      name ∉ scope.universes.map Universe.name := by
  rw [lawful.universeId?_eq]
  exact findIdx?_eq_none_iff_not_mem scope.universes Universe.name name

/-- A name that stands for an id stands for a universe. -/
theorem exists_universe {name : String} {id : Nat}
    (found : scope.universeId? name = some id) :
    ∃ u, scope.universe? id = some u ∧ u.id = id ∧ u.name = name := by
  obtain ⟨isAt, _⟩ := (lawful.universeId?_eq_some_iff name id).mp found
  obtain ⟨u, isUniverse, named⟩ :
      ∃ u, scope.universes[id]? = some u ∧ u.name = name := by
    simpa [places] using isAt
  exact ⟨u, isUniverse, lawful.id_eq isUniverse, named⟩

/-- An antecedent points to nothing, or to a universe and perhaps to an element
of it. -/
theorem resolve_cases (antecedent : Antecedent) :
    (scope.universeId? antecedent.subject = none ∧
      scope.resolve antecedent = ⟨none, none⟩) ∨
    ∃ u, scope.universe? u.id = some u ∧
      scope.universeId? antecedent.subject = some u.id ∧
      u.name = antecedent.subject ∧
      scope.resolve antecedent =
        ⟨some u.id, u.elementIndex? antecedent.condition⟩ := by
  cases found : scope.universeId? antecedent.subject with
  | none =>
      left
      refine ⟨rfl, ?_⟩
      rw [resolve, found]
      rfl
  | some id =>
      right
      obtain ⟨u, isUniverse, rfl, named⟩ := lawful.exists_universe found
      refine ⟨u, isUniverse, rfl, named, ?_⟩
      rw [resolve, found]
      simp [isUniverse]

end Lawful

/-- After any sequence of operations, the scope has the universes that were
declared, in order. Ids are places, each name stands for its first universe, the
claims have distinct names and consecutive ids, and an antecedent points to the
first element of its name in the universe that it names. A claim fails exactly
if one of its name succeeded before, and then leaves the scope that it was made
in. -/
theorem History.tables_in_step (operations : List Operation) :
    let history := of operations
    let scope := history.scope
    scope.universes.map (fun u => (u.name, u.elements)) =
      operations.filterMap Operation.declared? ∧
    (∀ place (inside : place < scope.universes.length),
      scope.universes[place].id = place ∧
        scope.universe? place = some scope.universes[place]) ∧
    (∀ name,
      (∀ place, scope.universeId? name = some place ↔
        IsLeast (places (scope.universes.map Universe.name) name) place) ∧
      (scope.universeId? name = none ↔
        name ∉ scope.universes.map Universe.name)) ∧
    ((history.claims.map Prod.fst).Nodup ∧
      history.claims.map Prod.snd = List.range history.claims.length) ∧
    (∀ name,
      (name ∈ history.claims.map Prod.fst →
        scope.claim name = .error (.duplicateRulebase name) ∧
          (claimInPlace name).run scope =
            .error (.duplicateRulebase name) scope ∧
          of (operations ++ [.claim name]) = history) ∧
      (name ∉ history.claims.map Prod.fst → ∃ claimed,
        scope.claim name = .ok (history.claims.length, claimed) ∧
          (claimInPlace name).run scope = .ok history.claims.length claimed ∧
          of (operations ++ [.claim name]) =
            ⟨claimed, history.claims ++ [(name, history.claims.length)]⟩)) ∧
    ∀ antecedent,
      let target := scope.resolve antecedent
      target.universeId = scope.universeId? antecedent.subject ∧
      (target.universeId = none → target.elementIndex = none) ∧
      ∀ id, target.universeId = some id → ∃ u, scope.universe? id = some u ∧
        (∀ place, target.elementIndex = some place ↔
          IsLeast (places (u.elements.map Element.name) antecedent.condition)
            place) ∧
        (target.elementIndex = none ↔
          antecedent.condition ∉ u.elements.map Element.name) := by
  intro history scope
  have lawful : history.Lawful := lawful_of operations
  refine ⟨universes_of operations,
    fun place inside => lawful.scope.universe?_of_lt inside,
    fun name => ⟨lawful.scope.universeId?_eq_some_iff name,
      lawful.scope.universeId?_eq_none_iff name⟩,
    ⟨by rw [lawful.names]; exact lawful.distinct, lawful.ids⟩, ?_, ?_⟩
  · intro name
    rw [lawful.names, of_append, lawful.length_claims]
    constructor
    · intro repeated
      have failed : scope.claim name = .error (.duplicateRulebase name) :=
        if_pos repeated
      refine ⟨failed, ?_, perform_claim_of_mem repeated⟩
      rw [run_claimInPlace, failed]
    · intro fresh
      have succeeded : scope.claim name = .ok (scope.rulebases.length,
          { scope with rulebases := scope.rulebases ++ [name] }) :=
        if_neg fresh
      refine ⟨_, succeeded, ?_, perform_claim_of_not_mem fresh⟩
      rw [run_claimInPlace, succeeded]
  · intro antecedent target
    obtain ⟨unknown, isTarget⟩ | ⟨u, isUniverse, known, _, isTarget⟩ :=
      lawful.scope.resolve_cases antecedent
    · simp only [target, scope, isTarget]
      exact ⟨unknown.symm, fun _ => trivial, fun id found => by cases found⟩
    · simp only [target, scope, isTarget]
      refine ⟨known.symm, fun missing => (by cases missing), ?_⟩
      intro id found
      cases found
      exact ⟨u, isUniverse,
        findIdx?_eq_some_iff_isLeast u.elements Element.name _,
        findIdx?_eq_none_iff_not_mem u.elements Element.name _⟩

/-- A universe declared twice under one name, and a claim that fails between two
others. -/
def History.repeatedNames : List Operation :=
  [.declare "u" [⟨"a", .nan, .nan⟩], .claim "r", .declare "u" [], .claim "r",
    .claim "u"]

theorem History.tables_in_step_repeatedNames :
    let history := of repeatedNames
    history.claims = [("r", 0), ("u", 1)] ∧
      history.scope.claim "r" = .error (.duplicateRulebase "r") ∧
      (claimInPlace "r").run history.scope =
        .error (.duplicateRulebase "r") history.scope ∧
      (∃ claimed, history.scope.claim "s" = .ok (2, claimed)) ∧
      IsLeast (places (history.scope.universes.map Universe.name) "u") 0 := by
  intro history
  obtain ⟨_, _, names, _, claims, _⟩ := tables_in_step repeatedNames
  obtain ⟨refused, inPlace, _⟩ := (claims "r").1 (by decide)
  refine ⟨by decide, refused, inPlace, ?_, ((names "u").1 0).mp (by decide)⟩
  obtain ⟨claimed, isClaimed, _⟩ := (claims "s").2 (by decide)
  exact ⟨claimed, isClaimed⟩

end Scope

end FuzzyRules
