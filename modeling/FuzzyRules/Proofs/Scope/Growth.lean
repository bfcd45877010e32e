import FuzzyRules.Proofs.Compilation.Run

namespace FuzzyRules

/-! A name that stands for a universe goes on standing for it, whatever happens
to the scope. -/

namespace Scope

/-- What can happen to a scope: an operation of its own, or the reading of the
block at a cursor. -/
inductive Action where
  | operate (operation : Operation)
  | readUniverse (cursor : Cursor)
  | readRulebase (cursor : Cursor)

/-- A block that cannot be read leaves the scope as it was. -/
def after (scope : Scope) : Action → Scope
  | .operate operation => (History.perform { scope := scope } operation).scope
  | .readUniverse cursor =>
      let u := (Universe.read scope cursor).value
      scope.declare u.name u.elements
  | .readRulebase cursor =>
      match Rulebase.read scope cursor with
      | .error _ => scope
      | .ok (claimed, _) => claimed

def afterAll (scope : Scope) (actions : List Action) : Scope :=
  actions.foldl after scope

private theorem after_cases (scope : Scope) (action : Action) :
    (∃ name elements, scope.after action = scope.declare name elements) ∨
      ∃ names, scope.after action = { scope with rulebases := names } := by
  cases action with
  | operate operation =>
      cases operation with
      | declare name elements => exact Or.inl ⟨name, elements, rfl⟩
      | claim name =>
          right
          by_cases repeated : name ∈ scope.rulebases
          · refine ⟨scope.rulebases, ?_⟩
            exact congrArg History.scope (History.perform_claim_of_mem repeated)
          · refine ⟨scope.rulebases ++ [name], ?_⟩
            exact congrArg History.scope
              (History.perform_claim_of_not_mem repeated)
  | readUniverse cursor => exact Or.inl ⟨_, _, rfl⟩
  | readRulebase cursor =>
      right
      rw [after, Rulebase.read_eq]
      split
      · next failed => exact ⟨scope.rulebases, rfl⟩
      · next claimed reading found =>
          split at found
          · cases found
          · cases found
            exact ⟨_, rfl⟩

theorem Lawful.afterAll {scope : Scope} (lawful : scope.Lawful)
    (actions : List Action) : (scope.afterAll actions).Lawful := by
  apply List.foldlRecOn actions after lawful
  intro scope lawful action _
  obtain ⟨name, elements, isNext⟩ | ⟨names, isNext⟩ := scope.after_cases action
  · exact isNext ▸ lawful.declare name elements
  · exact isNext ▸ lawful.withRulebases names

/-- All that the earlier scope knows of universes and their names, the later one
knows too. -/
structure Keeps (earlier later : Scope) : Prop where
  universes : earlier.universes <+: later.universes
  universeId? : ∀ {name : String} {id : Nat},
    earlier.universeId? name = some id → later.universeId? name = some id

namespace Keeps

theorem refl (scope : Scope) : Keeps scope scope :=
  ⟨List.prefix_refl _, id⟩

theorem trans {earlier middle later : Scope} (first : Keeps earlier middle)
    (second : Keeps middle later) : Keeps earlier later :=
  ⟨first.universes.trans second.universes,
    fun found => second.universeId? (first.universeId? found)⟩

theorem declare (scope : Scope) (name : String) (elements : List Element) :
    Keeps scope (scope.declare name elements) where
  universes := List.prefix_append _ _
  universeId? := by
    intro other id found
    rw [universeId?_declare, found, Option.some_or]

theorem after (scope : Scope) (action : Action) :
    Keeps scope (scope.after action) := by
  obtain ⟨name, elements, isNext⟩ | ⟨names, isNext⟩ := scope.after_cases action
  · exact isNext ▸ declare scope name elements
  · exact isNext ▸ ⟨List.prefix_refl _, id⟩

theorem afterAll (scope : Scope) (actions : List Action) :
    Keeps scope (scope.afterAll actions) := by
  apply List.foldlRecOn actions Scope.after (refl scope)
  intro later keeps action _
  exact keeps.trans (after later action)

variable {earlier later : Scope} (keeps : Keeps earlier later)

include keeps

theorem universe? {id : Nat} {u : Universe}
    (found : earlier.universe? id = some u) : later.universe? id = some u := by
  obtain ⟨added, whole⟩ := keeps.universes
  obtain ⟨inside, _⟩ := List.getElem?_eq_some_iff.mp found
  rw [Scope.universe?, ← whole, List.getElem?_append_left inside]
  exact found

/-- The first universe of a name decides, even about elements that only a later
one has. -/
theorem resolve_eq (lawful : earlier.Lawful) {antecedent : Antecedent}
    (known : earlier.universeId? antecedent.subject ≠ none) :
    later.resolve antecedent = earlier.resolve antecedent := by
  obtain ⟨unknown, _⟩ | ⟨u, isUniverse, found, _, isTarget⟩ :=
    lawful.resolve_cases antecedent
  · exact absurd unknown known
  · rw [isTarget, resolve, keeps.universeId? found]
    simp [keeps.universe? isUniverse]

end Keeps

end Scope

/-- Every antecedent of the rule is about a universe that is declared. -/
def Rule.KnownIn (scope : Scope) (rule : Rule) : Prop :=
  ∀ antecedent ∈ rule.antecedents, scope.universeId? antecedent.subject ≠ none

namespace Scope.Keeps

variable {earlier later : Scope} (keeps : Keeps earlier later)

include keeps

theorem ruleLines_eq (lawful : earlier.Lawful) {rule : Rule}
    (known : rule.KnownIn earlier) (index : Nat) :
    rule.lines later index = rule.lines earlier index := by
  have targets :
      (rule.antecedents.map fun antecedent => (later.resolve antecedent).line) =
      rule.antecedents.map fun antecedent =>
        (earlier.resolve antecedent).line := by
    apply List.map_congr_left
    intro antecedent member
    exact congrArg Target.line
      (keeps.resolve_eq lawful (known antecedent member))
  rw [Rule.lines, targets, ← Rule.lines]

theorem rulebaseLines_eq (lawful : earlier.Lawful) {rulebase : Rulebase}
    (known : ∀ rule ∈ rulebase.rules, rule.KnownIn earlier) :
    rulebase.lines later = rulebase.lines earlier := by
  have rules :
      (rulebase.rules.mapIdx fun index rule => rule.lines later index) =
      rulebase.rules.mapIdx fun index rule => rule.lines earlier index := by
    apply List.ext_getElem
    · simp
    · intro index inside _
      rw [List.getElem_mapIdx, List.getElem_mapIdx]
      exact keeps.ruleLines_eq lawful (known _ (List.getElem_mem _)) index
  rw [Rulebase.lines, rules, ← Rulebase.lines]

end Scope.Keeps

namespace Scope

/-- Between two scopes of one history, the universes of the earlier are in the
later under their ids, and names keep their ids. An antecedent points to the
same place as soon as its universe is declared, so the text of a rule or
rulebase is the same from then on. -/
theorem declarations_stay (actions further : List Action) :
    let earlier := afterAll {} actions
    let later := earlier.afterAll further
    (∀ id u, earlier.universe? id = some u →
      u.id = id ∧ later.universe? id = some u) ∧
    (∀ name id, earlier.universeId? name = some id →
      later.universeId? name = some id) ∧
    (∀ antecedent, earlier.universeId? antecedent.subject ≠ none →
      later.resolve antecedent = earlier.resolve antecedent) ∧
    (∀ rule : Rule, rule.KnownIn earlier → ∀ index,
      Script.text (rule.lines later index) =
        Script.text (rule.lines earlier index)) ∧
    ∀ rulebase : Rulebase, (∀ rule ∈ rulebase.rules, rule.KnownIn earlier) →
      Script.text (rulebase.lines later) =
        Script.text (rulebase.lines earlier) := by
  intro earlier later
  have lawful : earlier.Lawful := Lawful.empty.afterAll actions
  have keeps : Keeps earlier later := .afterAll earlier further
  refine ⟨?_, fun _ _ => keeps.universeId?,
    fun _ => keeps.resolve_eq lawful, ?_, ?_⟩
  · intro id u found
    exact ⟨lawful.id_eq found, keeps.universe? found⟩
  · intro rule known index
    exact congrArg Script.text (keeps.ruleLines_eq lawful known index)
  · intro rulebase known
    exact congrArg Script.text (keeps.rulebaseLines_eq lawful known)

/-- A universe, of which one element is missing until another universe of its
name has it. -/
def lackingElement : List Action :=
  [.operate (.declare "u" [⟨"a", .nan, .nan⟩])]

def shadowingUniverse : List Action :=
  [.readUniverse (.start [.keyword "universe", ⟨.literal, "u"⟩, ⟨.literal, "b"⟩,
      ⟨.literal, "0"⟩, ⟨.literal, "1"⟩, .keyword "end"]),
    .operate (.claim "u"),
    .readRulebase (.start [.keyword "rulebase", ⟨.literal, "u"⟩])]

def lackingRule : Rule :=
  ⟨"c", [⟨"u", "b"⟩, ⟨"u", "a"⟩]⟩

theorem declarations_stay_shadowed :
    let earlier := afterAll {} lackingElement
    let later := earlier.afterAll shadowingUniverse
    later.universes.map (fun u => (u.name, u.elements.map Element.name)) =
        [("u", ["a"]), ("u", ["b"])] ∧
      later.resolve ⟨"u", "b"⟩ = ⟨some 0, none⟩ ∧
      Script.text (Rulebase.lines later ⟨0, "u", some 0, [lackingRule]⟩) =
        Script.text
          (Rulebase.lines earlier ⟨0, "u", some 0, [lackingRule]⟩) := by
  intro earlier later
  obtain ⟨_, _, targets, _, rulebases⟩ :=
    declarations_stay lackingElement shadowingUniverse
  have known : earlier.universeId? "u" ≠ none := by decide
  refine ⟨by decide +kernel, (targets ⟨"u", "b"⟩ known).trans (by decide), ?_⟩
  apply rulebases
  rw [List.forall_mem_singleton]
  intro antecedent member
  rcases List.mem_pair.mp member with rfl | rfl
  · exact known
  · exact known

end Scope

end FuzzyRules
