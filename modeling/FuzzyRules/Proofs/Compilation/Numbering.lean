import FuzzyRules.Proofs.Compilation.Calls
import FuzzyRules.Proofs.Script.Text

namespace FuzzyRules

open Script

/-! The blocks at which a run stands are numbered in their order. Other keywords
that are counted are read as parts of some block. -/

section Places

variable {α : Type}

private theorem zipIdx_eq_take_append_drop (list : List α) (n place : Nat) :
    list.zipIdx place =
      (list.take n).zipIdx place ++ (list.drop n).zipIdx (place + n) := by
  induction list generalizing n place with
  | nil => simp
  | cons a others ih =>
      cases n with
      | zero => rfl
      | succ n =>
          rw [List.zipIdx_cons, ih n (place + 1), List.take_succ_cons,
            List.drop_succ_cons, Nat.add_right_comm]
          rfl

private theorem filter_zipIdx_eq_nil {list : List α} {place : Nat}
    {chosen : List Nat}
    (outside : ∀ other ∈ chosen, other < place ∨ place + list.length ≤ other) :
    (list.zipIdx place).filter (fun entry => entry.2 ∈ chosen) = [] := by
  rw [List.filter_eq_nil_iff]
  intro entry member isChosen
  have lower := List.le_snd_of_mem_zipIdx member
  have upper := List.snd_lt_add_of_mem_zipIdx member
  have apart := outside entry.2 (by simpa using isChosen)
  omega

private theorem filter_zipIdx_cons {list : List α} {place first : Nat}
    (before : first < place) (chosen : List Nat) :
    (list.zipIdx place).filter (fun entry => entry.2 ∈ first :: chosen) =
      (list.zipIdx place).filter fun entry => entry.2 ∈ chosen := by
  apply List.filter_congr
  intro entry member
  have lower := List.le_snd_of_mem_zipIdx member
  have notFirst : entry.2 ≠ first := by omega
  simp [notFirst]

end Places

namespace Progress

def position (progress : Progress) : Nat :=
  progress.cursor.position

/-- The states of a run that stand at a keyword. -/
def blocks (keyword : String) (states : List Progress) : List Progress :=
  states.filter fun state => state.cursor.peek.isKeyword keyword

/-- The tokens with a keyword at which none of the states stands. -/
def skipped (keyword : String) (tokens : List Token) (states : List Progress) :
    List (Token × Nat) :=
  tokens.zipIdx.filter fun (token, place) =>
    token.isKeyword keyword && place ∉ states.map position

private theorem exists_position_of_step {progress next : Progress}
    (stepped : progress.step = .ok next) :
    ∃ n, next.position = progress.position + 1 + n ∧
      next.cursor.rest = progress.cursor.rest.drop (n + 1) := by
  obtain ⟨n, moved⟩ := exists_cursor_of_step stepped
  refine ⟨n, ?_, ?_⟩
  · rw [position, position, moved, Cursor.advance_position, Nat.add_assoc]
  · rw [moved, Cursor.advance_rest, Nat.add_comm]

namespace Reaches

variable {progress finish : Progress} {passed : List Progress}

theorem position_le (reaches : Reaches progress passed finish)
    {state : Progress} (member : state ∈ passed) :
    progress.position ≤ state.position := by
  obtain ⟨before, after, rfl⟩ := List.append_of_mem member
  obtain ⟨n, moved⟩ := reaches.split.1.exists_cursor
  rw [position, position, moved, Cursor.advance_position]
  exact Nat.le_add_right _ n

/-- Of the tokens with their positions, those at which a run stands are found in
its states. -/
theorem filter_zipIdx (reaches : Reaches progress passed finish) :
    (progress.cursor.rest.zipIdx progress.position).filter
        (fun entry => entry.2 ∈ passed.map position) =
      passed.map fun state => (state.cursor.peek, state.position) := by
  induction reaches with
  | here => simp
  | @stepped progress next finish passed inside step others ih =>
      obtain ⟨n, nextPosition, nextRest⟩ := exists_position_of_step step
      cases rest : progress.cursor.rest with
      | nil => simp [Cursor.isAtEnd, rest] at inside
      | cons token tokens =>
          rw [rest, List.drop_succ_cons] at nextRest
          have ahead : ∀ place ∈ passed.map position,
              next.position ≤ place := by
            intro place member
            obtain ⟨state, isPassed, rfl⟩ := List.mem_map.mp member
            exact others.position_le isPassed
          have between : ((tokens.take n).zipIdx (progress.position + 1)).filter
              (fun entry => entry.2 ∈ passed.map position) = [] := by
            apply filter_zipIdx_eq_nil
            intro place member
            have := ahead place member
            have := List.length_take_le n tokens
            omega
          rw [List.zipIdx_cons, List.map_cons,
            List.filter_cons_of_pos (by simp),
            filter_zipIdx_cons (Nat.lt_succ_self _),
            zipIdx_eq_take_append_drop tokens n, List.filter_append, between,
            ← nextPosition, ← nextRest, ih, List.map_cons,
            Cursor.peek_of_rest rest]
          rfl

theorem countKeyword_eq {tokens : List Token}
    (reaches : Reaches (start tokens) passed finish) (keyword : String) :
    Token.countKeyword tokens keyword =
      (blocks keyword passed).length +
        (skipped keyword tokens passed).length := by
  have indexed : Token.countKeyword tokens keyword =
      tokens.zipIdx.countP fun entry => entry.1.isKeyword keyword := by
    rw [Token.countKeyword]
    nth_rewrite 1 [← List.zipIdx_map_fst 0 tokens]
    rw [List.countP_map]
    rfl
  rw [indexed, List.countP_eq_countP_filter_add _ _
    fun entry => entry.2 ∈ passed.map position]
  congr 1
  · refine (congrArg _ reaches.filter_zipIdx).trans ?_
    rw [List.countP_map, blocks, ← List.countP_eq_length_filter]
    rfl
  · rw [List.countP_filter, skipped, ← List.countP_eq_length_filter]
    simp only [decide_not]

/-- A position that a run goes past without standing there is inside a block. -/
theorem exists_block (reaches : Reaches progress passed finish) {place : Nat}
    (fromStart : progress.position ≤ place) (toFinish : place < finish.position)
    (unvisited : place ∉ passed.map position) :
    ∃ state ∈ passed, ∃ next, state.step = .ok next ∧
      state.cursor.peek.opensBlock = true ∧
      state.position < place ∧ place < next.position := by
  induction reaches with
  | here => omega
  | @stepped progress next finish passed inside step others ih =>
      rw [List.map_cons, List.mem_cons, not_or] at unvisited
      obtain ⟨notHere, notLater⟩ := unvisited
      by_cases reached : next.position ≤ place
      · obtain ⟨state, member, found⟩ := ih reached toFinish notLater
        exact ⟨state, List.mem_cons_of_mem progress member, found⟩
      · refine ⟨progress, List.mem_cons_self, next, step, ?_, by omega,
          by omega⟩
        by_contra passing
        rw [step_of_not_opensBlock (by simpa using passing)] at step
        cases step
        change ¬progress.position + 1 ≤ place at reached
        omega

theorem length_le_position {tokens : List Token}
    (reaches : Reaches (start tokens) passed finish)
    (atEnd : finish.cursor.isAtEnd = true) :
    tokens.length ≤ finish.position := by
  rw [Cursor.isAtEnd, reaches.cursor_eq, List.isEmpty_iff,
    List.drop_eq_nil_iff] at atEnd
  exact atEnd

end Reaches

private theorem blocks_cons (keyword : String) (state : Progress)
    (states : List Progress) :
    blocks keyword (state :: states) =
      blocks keyword [state] ++ blocks keyword states :=
  List.filter_append [state] states

private theorem blocks_of_isKeyword {keyword : String} {state : Progress}
    (opens : state.cursor.peek.isKeyword keyword = true) :
    blocks keyword [state] = [state] := by
  simp [blocks, opens]

private theorem blocks_of_not_isKeyword {keyword : String} {state : Progress}
    (other : ¬state.cursor.peek.isKeyword keyword = true) :
    blocks keyword [state] = [] := by
  simp [blocks, other]

/-- Blocks of a kind are numbered from `count` on, which each step raises by
those that it declares. -/
structure Counted {β : Type} (keyword : String) (part? : Declaration → Option β)
    (label : β → String × Nat) (count : Scope → Nat) : Prop where
  label_eq : ∀ state : Progress,
    (state.declared.filterMap part?).map label =
      ((blocks keyword [state]).map name).zipIdx (count state.scope)
  count_eq : ∀ {state next : Progress}, state.step = .ok next →
    count next.scope =
      count state.scope + (state.declared.filterMap part?).length

private theorem counted_universes :
    Counted "universe" Declaration.universe? (fun u => (u.name, u.id))
      fun scope => scope.universes.length where
  label_eq := by
    intro state
    rw [declared]
    split
    · next isUniverse =>
        rw [blocks_of_isKeyword isUniverse]
        rfl
    · next notUniverse =>
        rw [blocks_of_not_isKeyword notUniverse]
        split <;> rfl
  count_eq := by
    intro state next stepped
    rw [step_universes stepped, List.length_append]

private theorem counted_rulebases :
    Counted "rulebase" Declaration.rulebase?
      (fun (_, rulebase) => (rulebase.name, rulebase.id))
      fun scope => scope.rulebases.length where
  label_eq := by
    intro state
    rw [declared]
    split
    · next isUniverse =>
        rw [blocks_of_not_isKeyword fun isRulebase =>
          not_universe_of_rulebase isRulebase isUniverse]
        rfl
    · split
      · next isRulebase =>
          rw [blocks_of_isKeyword isRulebase]
          change [(state.rulebaseReading.value.name,
            state.rulebaseReading.value.id)] = _
          rw [name_rulebaseReading, id_rulebaseReading]
          rfl
      · next notRulebase =>
          rw [blocks_of_not_isKeyword notRulebase]
          rfl
  count_eq := by
    intro state next stepped
    rw [step_rulebases stepped, List.length_append, List.length_map]

section Counted

variable {β : Type} {keyword : String} {part? : Declaration → Option β}
  {label : β → String × Nat} {count : Scope → Nat} {progress finish : Progress}
  {passed : List Progress}

theorem Counted.labels_eq (counted : Counted keyword part? label count)
    (reaches : Reaches progress passed finish) :
    ((passed.flatMap declared).filterMap part?).map label =
      ((blocks keyword passed).map name).zipIdx (count progress.scope) := by
  induction reaches with
  | here => rfl
  | @stepped progress next finish passed inside step others ih =>
      have here := counted.label_eq progress
      have length : (progress.declared.filterMap part?).length =
          ((blocks keyword [progress]).map name).length := by
        simpa using congrArg List.length here
      rw [List.flatMap_cons, List.filterMap_append, List.map_append, here, ih,
        counted.count_eq step, length, blocks_cons keyword progress passed,
        List.map_append, List.zipIdx_append]

theorem Counted.names_eq (counted : Counted keyword part? label count)
    (reaches : Reaches progress passed finish) :
    ((passed.flatMap declared).filterMap part?).map
      (fun part => (label part).1) =
      (blocks keyword passed).map name := by
  have labels := congrArg (List.map Prod.fst) (counted.labels_eq reaches)
  rwa [List.map_map, List.zipIdx_map_fst] at labels

end Counted

theorem step_nodup {progress next : Progress}
    (stepped : progress.step = .ok next)
    (distinct : progress.scope.rulebases.Nodup) :
    next.scope.rulebases.Nodup := by
  rcases step_cases stepped with ⟨_, rfl⟩ | ⟨_, fresh, rfl⟩ | ⟨_, rfl⟩
  · exact distinct
  · have claimed := distinct.concat fresh
    rwa [List.concat_eq_append] at claimed
  · exact distinct

theorem Reaches.nodup {progress finish : Progress} {passed : List Progress}
    (reaches : Reaches progress passed finish)
    (distinct : progress.scope.rulebases.Nodup) :
    finish.scope.rulebases.Nodup := by
  induction reaches with
  | here => exact distinct
  | stepped inside step others ih => exact ih (step_nodup step distinct)

theorem Reaches.rulebases_eq_names {tokens : List Token}
    {passed : List Progress} {finish : Progress}
    (reaches : Reaches (start tokens) passed finish) :
    finish.scope.rulebases = (blocks "rulebase" passed).map name := by
  rw [reaches.rulebases_eq, ← counted_rulebases.names_eq reaches]
  rfl

end Progress

private theorem Script.filterMap_program {α : Type} {kind : Line → Option α}
    {universes rulebases : Nat}
    (opens : (opening universes rulebases).filterMap kind = [])
    (closes : closing.filterMap kind = []) (body : Script) :
    (program universes rulebases body).filterMap kind =
      body.filterMap kind := by
  rw [program_eq, List.filterMap_append, List.filterMap_append, opens, closes,
    List.nil_append, List.append_nil]

open Progress

/-- Whatever the tokens, a script numbers its universes and its rulebases in the
order of their blocks, and it announces as many of each as there are blocks and
keywords inside of blocks. If there is no script, the run stands at a rulebase
that has the name of just one before it. -/
theorem compile_numbers_blocks (tokens : List Token) :
    (∀ script, (compile tokens).result = .ok script →
      (∃ finish, Reaches (start tokens) (start tokens).visits finish ∧
        finish.cursor.isAtEnd = true ∧
        script = program
          ((blocks "universe" (start tokens).visits).length +
            (skipped "universe" tokens (start tokens).visits).length)
          ((blocks "rulebase" (start tokens).visits).length +
            (skipped "rulebase" tokens (start tokens).visits).length)
          finish.lines.toList) ∧
      (script.filterMap Line.universe?).map (fun (id, _, name) => (name, id)) =
        ((blocks "universe" (start tokens).visits).map name).zipIdx ∧
      (script.filterMap Line.rulebase?).map
        (fun (id, _, _, name) => (name, id)) =
        ((blocks "rulebase" (start tokens).visits).map name).zipIdx ∧
      ((blocks "rulebase" (start tokens).visits).map name).Nodup ∧
      ∀ place, place < tokens.length →
        place ∉ (start tokens).visits.map position →
        ∃ state ∈ (start tokens).visits, ∃ next, state.step = .ok next ∧
          state.cursor.peek.opensBlock = true ∧ state.position < place ∧
            place < next.position) ∧
    (∀ error, (compile tokens).result = .error error →
      ∃ before last, (start tokens).visits = before ++ [last] ∧
        Reaches (start tokens) before last ∧
        last.cursor.peek.isKeyword "rulebase" = true ∧
        error = .duplicateRulebase last.name ∧
        ((blocks "rulebase" before).map name).count last.name = 1) := by
  constructor
  · intro script compiled
    obtain ⟨finish, ran, rfl⟩ := exists_run_of_compile compiled
    obtain ⟨reaches, atEnd⟩ := reaches_of_run_eq_ok ran
    have distinct := reaches.nodup List.nodup_nil
    rw [reaches.rulebases_eq_names] at distinct
    have lines : finish.lines.toList =
        ((start tokens).visits.flatMap declared).flatMap Declaration.lines :=
      reaches.lines_eq
    refine ⟨⟨finish, reaches, atEnd, ?_⟩, ?_, ?_, distinct, ?_⟩
    · rw [reaches.countKeyword_eq, reaches.countKeyword_eq]
    · rw [filterMap_program rfl rfl, lines,
        filterMap_universe?_lines consistent_of_mem_declared, List.map_map]
      exact counted_universes.labels_eq reaches
    · rw [filterMap_program rfl rfl, lines,
        filterMap_rulebase?_lines consistent_of_mem_declared, List.map_map]
      exact counted_rulebases.labels_eq reaches
    · intro place inside unvisited
      exact reaches.exists_block (Nat.zero_le place)
        (inside.trans_le (reaches.length_le_position atEnd)) unvisited
  · intro error failed
    obtain ⟨last, ran⟩ := exists_failure_of_compile failed
    obtain ⟨before, visits, reaches, _, fails⟩ := reaches_of_run_eq_error ran
    obtain ⟨isRulebase, repeated, isError⟩ := step_error_cases fails
    have distinct := reaches.nodup List.nodup_nil
    rw [reaches.rulebases_eq_names] at distinct repeated
    exact ⟨before, last, visits, reaches, isRulebase, isError,
      List.count_eq_one_of_mem distinct repeated⟩

/-- Keywords in the places of names, and one more where the body of a rulebase
is left unread. -/
def swallowed : List Token :=
  [.keyword "universe", .keyword "rulebase", .keyword "end",
    .keyword "rulebase", .keyword "universe", .keyword "universe"]

theorem compile_numbers_swallowed :
    (compile swallowed).result = .ok (program 3 2
      [.call (.initUniverse 0 0 "rulebase"), .blank,
        .call (.initRulebase 0 0 none "universe"), .blank]) ∧
    ((blocks "universe" (start swallowed).visits).map name).zipIdx =
      [("rulebase", 0)] ∧
    skipped "universe" swallowed (start swallowed).visits =
      [(.keyword "universe", 4), (.keyword "universe", 5)] ∧
    (∃ state ∈ (start swallowed).visits, ∃ next, state.step = .ok next ∧
      state.position < 5 ∧ 5 < next.position) ∧
    ∃ before last,
      (start (swallowed ++ [.keyword "rulebase", .keyword "universe"])).visits =
        before ++ [last] ∧
        CompileError.duplicateRulebase "universe" =
          .duplicateRulebase last.name ∧
        ((blocks "rulebase" before).map name).count last.name = 1 := by
  have compiled : (compile swallowed).result = .ok (program 3 2
      [.call (.initUniverse 0 0 "rulebase"), .blank,
        .call (.initRulebase 0 0 none "universe"), .blank]) := by
    decide +kernel
  have failed : (compile
      (swallowed ++ [.keyword "rulebase", .keyword "universe"])).result =
      .error (.duplicateRulebase "universe") := by
    decide +kernel
  have unvisited : 5 ∉ (start swallowed).visits.map position := by
    decide +kernel
  obtain ⟨_, universes, _, _, inside⟩ :=
    (compile_numbers_blocks swallowed).1 _ compiled
  obtain ⟨before, last, visits, _, _, isError, once⟩ :=
    (compile_numbers_blocks
      (swallowed ++ [.keyword "rulebase", .keyword "universe"])).2 _ failed
  obtain ⟨state, member, next, stepped, _, lower, upper⟩ :=
    inside 5 (by decide) unvisited
  exact ⟨compiled, universes.symm, by decide +kernel,
    ⟨state, member, next, stepped, lower, upper⟩, before, last, visits, isError,
    once⟩

end FuzzyRules
