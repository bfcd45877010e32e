import FuzzyRules.Proofs.Compilation.Run
import FuzzyRules.Proofs.Host.Reading
import FuzzyRules.Proofs.Script.Names

namespace FuzzyRules

/-! Each declaration of a run fills the slots that it opens. -/

namespace Host

namespace Slots

variable {α : Type}

theorem add?_of_lt {slots : Slots α}
    (free : slots.items.length < slots.announced) (item : α) :
    slots.add? item = some { slots with items := slots.items ++ [item] } :=
  if_pos free

theorem changeLast?_append (announced : Nat) (items : List α) (last : α)
    (change : α → Option α) :
    (Slots.mk announced (items ++ [last])).changeLast? change =
      (change last).map fun changed => ⟨announced, items ++ [changed]⟩ := by
  simp [changeLast?, Option.map_eq_bind]

theorem full_filled (items : List α) : (filled items).Full :=
  rfl

end Slots

namespace State

def withUniverse (state : State) (u : Universe) : State :=
  { state with universes :=
    { state.universes with items := state.universes.items ++ [u] } }

def withRulebase (state : State) (rulebase : Rulebase) : State :=
  { state with rulebases :=
    { state.rulebases with items := state.rulebases.items ++ [rulebase] } }

theorem run_cons (state : State) (request : Request) (requests : List Request) :
    state.run (request :: requests) = (state.step request).bind fun next =>
      next.run requests :=
  List.foldlM_cons

private theorem run_append (state : State) (first second : List Request) :
    state.run (first ++ second) = (state.run first).bind fun next =>
      next.run second :=
  List.foldlM_append

private theorem settled_withUniverse {state : State} {u : Universe}
    (settled : state.Settled) (full : u.elements.Full) :
    (state.withUniverse u).Settled := by
  refine ⟨?_, settled.2⟩
  rw [withUniverse, List.forall_mem_append]
  exact ⟨settled.1, List.forall_mem_singleton.mpr full⟩

private theorem settled_withRulebase {state : State} {rulebase : Rulebase}
    (settled : state.Settled) (full : rulebase.Settled) :
    (state.withRulebase rulebase).Settled := by
  refine ⟨settled.1, ?_⟩
  rw [withRulebase, List.forall_mem_append]
  exact ⟨settled.2, List.forall_mem_singleton.mpr full⟩

/-- Adding as many items as there are slots fills them. -/
theorem run_fill {α : Type} {hold : Nat → List α → State}
    {request : α → Request}
    (add : ∀ (announced : Nat) (done : List α) (item : α),
      done.length < announced → (hold announced done).step (request item) =
      some (hold announced (done ++ [item])))
    (done todo : List α) :
    (hold (done ++ todo).length done).run (todo.map request) =
      some (hold (done ++ todo).length (done ++ todo)) := by
  induction todo generalizing done with
  | nil =>
      rw [List.append_nil]
      rfl
  | cons item others ih =>
      have free : done.length < (done ++ item :: others).length := by simp
      rw [List.map_cons, run_cons, add _ done item free, Option.bind_some,
        List.append_cons done item others]
      exact ih (done ++ [item])

private theorem step_initUniverse {state : State} (settled : state.Settled)
    (free : state.universes.items.length < state.universes.announced)
    (id elements : Nat) :
    state.step (.initUniverse id elements) =
      some (state.withUniverse ⟨id, .ofLength elements⟩) := by
  simp [step, guard, settled, Slots.add?_of_lt free, withUniverse]

private theorem step_addElement (state : State) (id announced : Nat)
    (done : List (String × String)) (element : String × String)
    (free : done.length < announced) :
    (state.withUniverse ⟨id, announced, done⟩).step
        (.addElement element.1 element.2) =
      some (state.withUniverse ⟨id, announced, done ++ [element]⟩) := by
  simp [step, withUniverse, Slots.changeLast?_append, Universe.addElement?,
    Slots.add?, free]

private theorem step_initRulebase {state : State} (settled : state.Settled)
    (free : state.rulebases.items.length < state.rulebases.announced)
    (id rules : Nat) (consequent : Option Nat) :
    state.step (.initRulebase id rules consequent) =
      some (state.withRulebase ⟨id, consequent, .ofLength rules⟩) := by
  simp [step, guard, settled, Slots.add?_of_lt free, withRulebase]

section Rules

variable (state : State) (id : Nat) (consequent : Option Nat)

private theorem step_addRule {announced : Nat} {rules : List Rule}
    (full : ∀ rule ∈ rules, rule.Full) (free : rules.length < announced)
    (antecedents : Nat) :
    (state.withRulebase ⟨id, consequent, announced, rules⟩).step
        (.addRule rules.length antecedents) =
      some (state.withRulebase ⟨id, consequent, announced,
        rules ++ [.ofLength antecedents]⟩) := by
  have allowed : Rulebase.addRule? rules.length antecedents
        ⟨id, consequent, announced, rules⟩ =
      some ⟨id, consequent, announced, rules ++ [.ofLength antecedents]⟩ := by
    rw [Rulebase.addRule?, guard, if_pos ⟨full, rfl⟩, Slots.add?_of_lt free]
    rfl
  simp [step, withRulebase, Slots.changeLast?_append, allowed]

private theorem step_addAntecedent (rules : List Rule)
    (announced antecedents : Nat) (done : List Target) (target : Target)
    (free : done.length < antecedents) :
    (state.withRulebase ⟨id, consequent, announced,
        rules ++ [⟨antecedents, done⟩]⟩).step (.addAntecedent target) =
      some (state.withRulebase ⟨id, consequent, announced,
        rules ++ [⟨antecedents, done ++ [target]⟩]⟩) := by
  simp [step, withRulebase, Slots.changeLast?_append, Rulebase.addAntecedent?,
    Slots.add?, free]

private theorem run_rule {announced : Nat} {rules : List Rule}
    (full : ∀ rule ∈ rules, rule.Full) (free : rules.length < announced)
    (targets : List Target) :
    (state.withRulebase ⟨id, consequent, announced, rules⟩).run
        (.addRule rules.length targets.length :: targets.map .addAntecedent) =
      some (state.withRulebase ⟨id, consequent, announced,
        rules ++ [.filled targets]⟩) := by
  rw [run_cons, step_addRule state id consequent full free, Option.bind_some]
  exact run_fill (step_addAntecedent state id consequent rules announced)
    [] targets

end Rules

end State

def Universe.ofSource (u : FuzzyRules.Universe) : Universe :=
  ⟨u.id,
    .filled (u.elements.map fun element => (element.x.text, element.y.text))⟩

def Rule.ofSource (scope : Scope) (rule : FuzzyRules.Rule) : Rule :=
  .filled (rule.antecedents.map scope.resolve)

def Rulebase.ofSource (scope : Scope) (rulebase : FuzzyRules.Rulebase) :
    Rulebase :=
  ⟨rulebase.id, rulebase.consequent,
    .filled (rulebase.rules.map (Rule.ofSource scope))⟩

private theorem Rulebase.settled_ofSource (scope : Scope)
    (rulebase : FuzzyRules.Rulebase) : (ofSource scope rulebase).Settled := by
  refine ⟨rfl, ?_⟩
  intro rule member
  obtain ⟨source, _, rfl⟩ := List.mem_map.mp member
  exact Slots.full_filled _

private theorem requests_calls {α : Type} (call : α → Call) (list : List α) :
    (list.map fun a => Script.Line.call (call a)).flatMap requests =
      list.map fun a => .ofCall (call a) := by
  rw [List.flatMap_map, List.map_eq_flatMap]
  rfl

private theorem requests_universe (u : FuzzyRules.Universe) :
    u.lines.flatMap requests = .initUniverse u.id u.elements.length ::
      (u.elements.map fun element => (element.x.text, element.y.text)).map
        (fun element => .addElement element.1 element.2) := by
  have elements : (u.elements.map Element.line).flatMap requests =
      u.elements.map fun element => .ofCall (.addElement element.x element.y) :=
    requests_calls _ _
  rw [Universe.lines, List.cons_append, List.flatMap_cons, List.flatMap_append,
    elements]
  simp [requests, Request.ofCall, Function.comp_def]

private theorem requests_rule (scope : Scope) (index : Nat)
    (rule : FuzzyRules.Rule) :
    (rule.lines scope index).flatMap requests =
      .addRule index (rule.antecedents.map scope.resolve).length ::
        (rule.antecedents.map scope.resolve).map .addAntecedent := by
  have antecedents : (rule.antecedents.map fun antecedent =>
        (scope.resolve antecedent).line).flatMap requests =
      rule.antecedents.map fun antecedent =>
        .addAntecedent (scope.resolve antecedent) :=
    requests_calls _ _
  rw [Rule.lines, List.cons_append, List.flatMap_cons, List.flatMap_append,
    antecedents]
  simp [requests, Request.ofCall, Function.comp_def]

namespace State

private theorem run_universe {state : State} (settled : state.Settled)
    (free : state.universes.items.length < state.universes.announced)
    (u : FuzzyRules.Universe) :
    state.run (u.lines.flatMap requests) =
      some (state.withUniverse (.ofSource u)) := by
  rw [requests_universe, run_cons, step_initUniverse settled free,
    Option.bind_some, ← List.length_map]
  exact run_fill (step_addElement state u.id) [] _

/-- The rules of a rulebase are added in order, each with its index. -/
theorem run_rules (state : State) (id : Nat) (consequent : Option Nat)
    (scope : Scope) (done todo : List FuzzyRules.Rule) :
    (state.withRulebase
        ⟨id, consequent, (done ++ todo).length,
          done.map (Rule.ofSource scope)⟩).run
        (((todo.mapIdx fun index rule =>
          rule.lines scope (done.length + index)).flatten).flatMap requests) =
      some (state.withRulebase
        ⟨id, consequent,
          .filled ((done ++ todo).map (Rule.ofSource scope))⟩) := by
  induction todo generalizing done with
  | nil =>
      rw [List.append_nil, ← List.length_map]
      rfl
  | cons rule others ih =>
      have full : ∀ rule ∈ done.map (Rule.ofSource scope), rule.Full := by
        intro rule member
        obtain ⟨source, _, rfl⟩ := List.mem_map.mp member
        exact Slots.full_filled _
      have free : (done.map (Rule.ofSource scope)).length <
          (done ++ rule :: others).length := by
        simp
      have first := run_rule state id consequent full free
        (rule.antecedents.map scope.resolve)
      rw [List.length_map, ← requests_rule scope done.length rule] at first
      -- The index that a rule is added with counts the rules done before it.
      have shifted (index : Nat) : done.length + (index + 1) =
          (done ++ [rule]).length + index := by
        simp
        omega
      have later := ih (done ++ [rule])
      rw [List.map_append, ← List.append_cons] at later
      rw [List.mapIdx_cons, List.flatten_cons, List.flatMap_append, run_append,
        Nat.add_zero, first, Option.bind_some]
      simp only [shifted]
      exact later

private theorem run_rulebase {state : State} (settled : state.Settled)
    (free : state.rulebases.items.length < state.rulebases.announced)
    {scope : Scope} {rulebase : FuzzyRules.Rulebase}
    (consistent : (Declaration.ofRulebase scope rulebase).Consistent) :
    state.run ((rulebase.lines scope).flatMap requests) =
      some (state.withRulebase (.ofSource scope rulebase)) := by
  obtain ⟨id, name, consequent, rules⟩ := rulebase
  cases consequent with
  | none =>
      obtain rfl : rules = [] := consistent rfl
      change state.run [.initRulebase id 0 none] = _
      rw [run_cons, step_initRulebase settled free]
      rfl
  | some consequent =>
      have later := run_rules state id (some consequent) scope [] rules
      simp only [List.length_nil, Nat.zero_add] at later
      rw [Rulebase.lines, List.cons_append, List.flatMap_cons,
        List.flatMap_append]
      change state.run
        (.initRulebase id rules.length (some consequent) :: (_ ++ [])) = _
      rw [run_cons, step_initRulebase settled free, Option.bind_some,
        List.append_nil]
      exact later

/-- The state once the host holds some declarations as well. -/
def holding (state : State) (declarations : List Declaration) : State where
  universes :=
    { state.universes with
      items := state.universes.items ++
        (declarations.filterMap Declaration.universe?).map Universe.ofSource }
  rulebases :=
    { state.rulebases with
      items := state.rulebases.items ++
        (declarations.filterMap Declaration.rulebase?).map
          fun (scope, rulebase) => Rulebase.ofSource scope rulebase }

private theorem holding_nil (state : State) : state.holding [] = state := by
  simp [holding]

private theorem holding_universe (state : State) (u : FuzzyRules.Universe)
    (others : List Declaration) :
    state.holding (.ofUniverse u :: others) =
      (state.withUniverse (.ofSource u)).holding others := by
  simp [holding, withUniverse, List.filterMap_cons, Declaration.universe?,
    Declaration.rulebase?]

private theorem holding_rulebase (state : State) (scope : Scope)
    (rulebase : FuzzyRules.Rulebase) (others : List Declaration) :
    state.holding (.ofRulebase scope rulebase :: others) =
      (state.withRulebase (.ofSource scope rulebase)).holding others := by
  simp [holding, withRulebase, List.filterMap_cons, Declaration.universe?,
    Declaration.rulebase?]

/-- The host takes declarations one after the other, as long as enough of them
were announced. -/
theorem run_declarations {state : State} {declarations : List Declaration}
    (settled : state.Settled)
    (consistent : ∀ declaration ∈ declarations, declaration.Consistent)
    (universes : state.universes.items.length +
      (declarations.filterMap Declaration.universe?).length ≤
      state.universes.announced)
    (rulebases : state.rulebases.items.length +
      (declarations.filterMap Declaration.rulebase?).length ≤
      state.rulebases.announced) :
    state.run ((declarations.flatMap Declaration.lines).flatMap requests) =
        some (state.holding declarations) ∧
      (state.holding declarations).Settled := by
  induction declarations generalizing state with
  | nil =>
      rw [holding_nil]
      exact ⟨rfl, settled⟩
  | cons declaration others ih =>
      have consistentOthers : ∀ other ∈ others, other.Consistent :=
        fun other member =>
          consistent other (List.mem_cons_of_mem declaration member)
      rw [List.flatMap_cons, List.flatMap_append, run_append]
      cases declaration with
      | ofUniverse u =>
          rw [List.filterMap_cons] at universes rulebases
          simp only [Declaration.universe?, Declaration.rulebase?,
            List.length_cons] at universes rulebases
          have free : state.universes.items.length <
              state.universes.announced := by omega
          rw [Declaration.lines, run_universe settled free, holding_universe,
            Option.bind_some]
          apply ih (settled_withUniverse settled (Slots.full_filled _))
            consistentOthers
          · simp only [withUniverse, List.length_append, List.length_singleton]
            omega
          · exact rulebases
      | ofRulebase scope rulebase =>
          rw [List.filterMap_cons] at universes rulebases
          simp only [Declaration.universe?, Declaration.rulebase?,
            List.length_cons] at universes rulebases
          have free : state.rulebases.items.length <
              state.rulebases.announced := by omega
          have isConsistent := consistent _ List.mem_cons_self
          rw [Declaration.lines, run_rulebase settled free isConsistent,
            holding_rulebase, Option.bind_some]
          apply ih (settled_withRulebase settled
            (Rulebase.settled_ofSource scope rulebase)) consistentOthers
          · exact universes
          · simp only [withRulebase, List.length_append, List.length_singleton]
            omega

end State

private theorem requests_program (universes rulebases : Nat) (body : Script) :
    (Script.program universes rulebases body).flatMap requests =
      .init universes rulebases :: body.flatMap requests := by
  simp [Script.program, Script.initLines, requests, Request.ofCall]

private theorem oneLine_declaration {declaration : Declaration}
    (oneLine : '\n' ∉ declaration.name.toList) :
    ∀ line ∈ declaration.lines, OneLine line := by
  apply Script.oneLine_of_breaks
  rw [Declaration.breaks_lines]
  exact List.count_eq_zero.mpr oneLine

private theorem oneLine_program {universes rulebases : Nat} {body : Script}
    (oneLine : ∀ line ∈ body, OneLine line) :
    ∀ line ∈ Script.program universes rulebases body, OneLine line := by
  have plain {script : Script} (isPlain : ∀ line ∈ script, line.Plain) :
      ∀ line ∈ script, OneLine line :=
    Script.oneLine_of_breaks (Script.breaks_of_plain isPlain)
  rw [Script.program_eq, List.forall_mem_append, List.forall_mem_append]
  exact ⟨⟨plain (Script.plain_opening _ _), oneLine⟩,
    plain Script.plain_closing⟩

private theorem read?_program (universes rulebases : Nat) {body : Script}
    (oneLine : ∀ line ∈ body, OneLine line) :
    read? (Script.text (Script.program universes rulebases body)) =
      some (.init universes rulebases :: body.flatMap requests) := by
  rw [read?_text (oneLine_program oneLine), requests_program]

theorem serve_declarations {universes rulebases : Nat}
    {declarations : List Declaration}
    (consistent : ∀ declaration ∈ declarations, declaration.Consistent)
    (enough :
      (declarations.filterMap Declaration.universe?).length ≤ universes ∧
      (declarations.filterMap Declaration.rulebase?).length ≤ rulebases) :
    serve (.init universes rulebases ::
        (declarations.flatMap Declaration.lines).flatMap requests) =
      some ((State.start universes rulebases).holding declarations) := by
  have settled : (State.start universes rulebases).Settled :=
    ⟨List.forall_mem_nil _, List.forall_mem_nil _⟩
  have replayed := State.run_declarations settled consistent
    (by simpa [State.start, Slots.ofLength] using enough.1)
    (by simpa [State.start, Slots.ofLength] using enough.2)
  rw [serve, replayed.1]
  simp [guard, replayed.2]

/-- The host accepts every script that is compiled, provided that names do not
break lines. It then holds the universes of the final scope, and the rulebases
with their antecedents as they resolved where the rulebase was declared. -/
theorem replay_compiled {tokens : List Token} {script : Script}
    (compiled : (compile tokens).result = .ok script)
    (oneLine : ∀ declaration ∈ (Progress.start tokens).declarations,
      '\n' ∉ declaration.name.toList) :
    ∃ finish, (Progress.start tokens).run = .ok finish ∧
      (read? (Script.text script)).bind List.head? =
        some (.init (Token.countKeyword tokens "universe")
          (Token.countKeyword tokens "rulebase")) ∧
      replay (Script.text script) = some
        { universes := ⟨Token.countKeyword tokens "universe",
            finish.scope.universes.map Universe.ofSource⟩
          rulebases := ⟨Token.countKeyword tokens "rulebase",
            ((Progress.start tokens).declarations.filterMap
              Declaration.rulebase?).map
              fun (scope, rulebase) => Rulebase.ofSource scope rulebase⟩ } ∧
      finish.scope.rulebases =
        ((Progress.start tokens).declarations.filterMap
          Declaration.rulebase?).map
          fun (_, rulebase) => rulebase.name := by
  obtain ⟨finish, run, rfl⟩ := exists_run_of_compile compiled
  have ran := Progress.ran_of_run run
  have written : finish.lines.toList =
      (Progress.start tokens).declarations.flatMap Declaration.lines :=
    ran.lines_eq
  have held : finish.scope.universes =
      (Progress.start tokens).declarations.filterMap Declaration.universe? :=
    ran.universes_eq
  have unbroken : ∀ line ∈ finish.lines.toList, OneLine line := by
    rw [written]
    intro line member
    obtain ⟨declaration, isDeclared, isLine⟩ := List.mem_flatMap.mp member
    exact oneLine_declaration (oneLine declaration isDeclared) line isLine
  refine ⟨finish, run, ?_, ?_, ran.rulebases_eq⟩
  · rw [read?_program _ _ unbroken]
    rfl
  · rw [replay, read?_program _ _ unbroken, Option.bind_some, written, held]
    exact serve_declarations ran.consistent ran.length_le

/-- The first rulebase has no universe and takes the keyword of a second one
with it; the last one breaks off inside its second antecedent. -/
def brokenOff : List Token :=
  [.keyword "universe", ⟨.literal, "u"⟩, ⟨.literal, "a"⟩, ⟨.literal, "0"⟩,
    ⟨.literal, "1"⟩, .keyword "end", .keyword "rulebase", ⟨.other, "v"⟩,
    .keyword "rulebase", .keyword "rulebase", ⟨.literal, "u"⟩, .keyword "rule",
    ⟨.literal, "c"⟩, .keyword "when", ⟨.literal, "u"⟩, .keyword "is",
    ⟨.literal, "a"⟩, .keyword "and", ⟨.literal, "w"⟩]

def brokenOffText : String :=
  "int main()\x7b\n\nFRI_init(1, 3);\n\n" ++
    "FRI_initUniverseById(0, 1); // Universe: u\n" ++
    "FRI_addUniverseElement(0, 1);\n\n" ++
    "FRI_initRuleBaseById(0, 0, -1); // Rulebase: v (INVALID)\n\n" ++
    "FRI_initRuleBaseById(1, 1, 0); // Rulebase: u\n" ++
    "FRI_addRuleToRulebase(0, 2);\n" ++
    "FRI_addAntecedentToRule(0, 0);\nFRI_addAntecedentToRule(-1, -1);\n\n\n" ++
    "\nreturn 0;\n\x7d\n"

theorem replay_brokenOff :
    (compile brokenOff).result.toOption.map Script.text = some brokenOffText ∧
      replay brokenOffText = some
        { universes := ⟨1, [⟨0, 1, [("0", "1")]⟩]⟩
          rulebases := ⟨3, [⟨0, none, 0, []⟩,
            ⟨1, some 0, 1, [⟨2, [⟨some 0, some 0⟩, ⟨none, none⟩]⟩]⟩]⟩ } := by
  have written : (compile brokenOff).result.toOption.map Script.text =
      some brokenOffText := by
    decide +kernel
  have universes : (Progress.start brokenOff).run.toOption.map
      (fun finish => finish.scope.universes.map Universe.ofSource) =
        some [⟨0, 1, [("0", "1")]⟩] := by
    decide +kernel
  refine ⟨written, ?_⟩
  cases compiled : (compile brokenOff).result with
  | error error =>
      rw [compiled] at written
      cases written
  | ok script =>
      obtain ⟨finish, ran, _, replayed, _⟩ :=
        replay_compiled compiled (by decide +kernel)
      rw [compiled] at written
      rw [ran] at universes
      have held : finish.scope.universes.map Universe.ofSource =
          [⟨0, 1, [("0", "1")]⟩] :=
        Option.some.inj universes
      rw [← Option.some.inj written, replayed, held]
      decide +kernel

end Host

end FuzzyRules
