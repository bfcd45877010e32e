import FuzzyRules.Proofs.Compilation.Run

namespace FuzzyRules

/-! The body of a rulebase ends at the first `end` between its items, quoted or
not, or where the tokens run out. -/

namespace Cursor

theorem isAtEnd_advance_start_iff (tokens : List Token) (position : Nat) :
    ((start tokens).advance position).isAtEnd = true ↔
      tokens.length ≤ position := by
  simp [isAtEnd, start]

theorem peekNth_advance_start (tokens : List Token) (position n : Nat) :
    ((start tokens).advance position).peekNth n =
      tokens.getD (position + n) .empty := by
  simp [peekNth, start]

theorem peek_of_isAtEnd {cursor : Cursor} (atEnd : cursor.isAtEnd = true) :
    cursor.peek = .empty := by
  rw [isAtEnd, List.isEmpty_iff] at atEnd
  exact peekNth_of_rest atEnd 0

theorem message_of_mem_mismatch {cursor : Cursor} {expected : String} :
    ∀ diagnostic ∈ cursor.mismatch expected,
      diagnostic.message = "skipping unexpected token" := by
  intro diagnostic member
  unfold mismatch at member
  split at member
  · cases member
  · cases List.mem_singleton.mp member
    rfl

end Cursor

def Rule.messages : List String :=
  ["skipping unexpected token", "input ended inside rule"]

private theorem Antecedent.message_of_mem_readAll (consequent : String)
    (cursor : Cursor) :
    ∀ diagnostic ∈ (Antecedent.readAll consequent cursor).diagnostics,
      diagnostic.message ∈ Rule.messages := by
  fun_induction Antecedent.readAll consequent cursor with
  | case1 cursor isEnd => exact List.forall_mem_nil _
  | case2 cursor notEnd atEnd =>
      intro diagnostic member
      cases List.mem_singleton.mp member
      exact List.mem_cons_of_mem _ List.mem_cons_self
  | case3 cursor notEnd inside isAnd ih => exact ih
  | case4 cursor notEnd inside notAnd others ih =>
      intro diagnostic member
      rcases List.mem_append.mp member with here | later
      · rw [Cursor.message_of_mem_mismatch diagnostic here]
        exact List.mem_cons_self
      · exact ih diagnostic later

theorem Rule.message_of_mem_read (cursor : Cursor) :
    ∀ diagnostic ∈ (Rule.read cursor).diagnostics,
      diagnostic.message ∈ Rule.messages := by
  intro diagnostic member
  rcases List.mem_append.mp member with here | later
  · rw [Cursor.message_of_mem_mismatch diagnostic here]
    exact List.mem_cons_self
  · exact Antecedent.message_of_mem_readAll _ _ diagnostic later

theorem Rule.readAll_of_isAtEnd (rulebase : String) {cursor : Cursor}
    (atEnd : cursor.isAtEnd = true) :
    Rule.readAll rulebase cursor =
      ⟨[], cursor.advance 1, [.unfinishedRulebase rulebase]⟩ := by
  rw [Rule.readAll, if_neg (by rw [Cursor.peek_of_isAtEnd atEnd]; decide),
    dif_pos atEnd]

namespace Rulebase

/-- A part of a rulebase's body. A rule moves the cursor by its width, which is
more than the number of its tokens if it runs past the end. -/
inductive Item where
  | passed (token : Token)
  | rule (width : Nat) (tokens : List Token) (value : Rule)

namespace Item

def tokens : Item → List Token
  | passed token => [token]
  | rule _ tokens _ => tokens

def width : Item → Nat
  | passed _ => 1
  | rule width _ _ => width

def rule? : Item → Option Rule
  | passed _ => none
  | rule _ _ value => some value

end Item

/-- The items between two cursors; the second stands at an `end` or where
nothing is left. -/
inductive Items : Cursor → List Item → Cursor → Prop where
  | closed {cursor : Cursor}
      (stops : cursor.isAtEnd = true ∨ cursor.peek.value = "end") :
      Items cursor [] cursor
  | passed {cursor stop : Cursor} {items : List Item}
      (inside : cursor.isAtEnd = false)
      (notEnd : cursor.peek.value ≠ "end")
      (notRule : cursor.peek.value ≠ "rule")
      (others : Items (cursor.advance 1) items stop) :
      Items cursor (.passed cursor.peek :: items) stop
  | rule {cursor stop : Cursor} {items : List Item} {width : Nat} {value : Rule}
      (inside : cursor.isAtEnd = false) (isRule : cursor.peek.value = "rule")
      (read : (Rule.read cursor).value = value)
      (moved : (Rule.read cursor).cursor = cursor.advance width)
      (others : Items (cursor.advance width) items stop) :
      Items cursor (.rule width (cursor.rest.take width) value :: items) stop

theorem exists_items (cursor : Cursor) :
    ∃ items stop, Items cursor items stop := by
  fun_induction Rule.readAll "" cursor with
  | case1 cursor isEnd => exact ⟨[], cursor, .closed (Or.inr isEnd)⟩
  | case2 cursor notEnd atEnd => exact ⟨[], cursor, .closed (Or.inl atEnd)⟩
  | case3 cursor notEnd inside isRule first others ih =>
      obtain ⟨items, stop, found⟩ := ih
      obtain ⟨n, moved⟩ := Rule.exists_read_cursor cursor
      have onward : Items (cursor.advance (4 + n)) items stop := moved ▸ found
      exact ⟨_, stop, .rule (by simpa using inside) isRule rfl moved onward⟩
  | case4 cursor notEnd inside notRule ih =>
      obtain ⟨items, stop, found⟩ := ih
      exact ⟨_, stop, .passed (by simpa using inside) notEnd notRule found⟩

namespace Items

variable {cursor stop : Cursor} {items : List Item}

theorem stops (found : Items cursor items stop) :
    stop.isAtEnd = true ∨ stop.peek.value = "end" := by
  induction found with
  | closed stops => exact stops
  | passed _ _ _ _ ih => exact ih
  | rule _ _ _ _ _ ih => exact ih

theorem rest_eq (found : Items cursor items stop) :
    cursor.rest = items.flatMap Item.tokens ++ stop.rest := by
  induction found with
  | closed => rfl
  | @passed cursor stop items inside notEnd notRule others ih =>
      cases rest : cursor.rest with
      | nil => simp [Cursor.isAtEnd, rest] at inside
      | cons token tokens =>
          rw [Cursor.advance_rest, rest, List.drop_one, List.tail_cons] at ih
          rw [Cursor.peek_of_rest rest, List.flatMap_cons,
            List.append_assoc, ← ih]
          rfl
  | @rule cursor stop items width value inside isRule read moved others ih =>
      rw [List.flatMap_cons, List.append_assoc, ← ih]
      exact (List.take_append_drop width cursor.rest).symm

theorem stop_eq (found : Items cursor items stop) :
    stop = cursor.advance (items.map Item.width).sum := by
  induction found with
  | closed => rfl
  | passed _ _ _ _ ih =>
      rw [ih, Cursor.advance_advance, List.map_cons, List.sum_cons, Item.width]
  | rule _ _ _ _ _ ih =>
      rw [ih, Cursor.advance_advance, List.map_cons, List.sum_cons, Item.width]

theorem unique (found : Items cursor items stop) {others : List Item}
    {other : Cursor} (again : Items cursor others other) :
    others = items ∧ other = stop := by
  induction found generalizing others other with
  | @closed cursor stops =>
      cases again with
      | closed => exact ⟨rfl, rfl⟩
      | passed inside notEnd => simp [inside, notEnd] at stops
      | rule inside isRule => simp [inside, isRule] at stops
  | passed inside notEnd notRule _ ih =>
      cases again with
      | closed stops => simp [inside, notEnd] at stops
      | passed _ _ _ more =>
          obtain ⟨rfl, rfl⟩ := ih more
          exact ⟨rfl, rfl⟩
      | rule _ isRule => exact absurd isRule notRule
  | rule inside isRule read moved _ ih =>
      cases again with
      | closed stops => simp [inside, isRule] at stops
      | passed _ _ notRule => exact absurd isRule notRule
      | rule _ _ readAgain movedAgain more =>
          obtain rfl := readAgain.symm.trans read
          obtain rfl := Nat.add_left_cancel
            (congrArg Cursor.position (movedAgain.symm.trans moved))
          obtain ⟨rfl, rfl⟩ := ih more
          exact ⟨rfl, rfl⟩

theorem isAtEnd_stop_iff {tokens : List Token} {position : Nat}
    (found : Items ((Cursor.start tokens).advance position) items stop) :
    stop.isAtEnd = true ↔ tokens.length < (stop.advance 1).position := by
  rw [found.stop_eq, Cursor.advance_advance, Cursor.isAtEnd_advance_start_iff,
    Cursor.advance_position, Cursor.advance_position, Cursor.start,
    Nat.zero_add]
  exact Nat.lt_succ_iff.symm

end Items

def unfinished (diagnostics : List Diagnostic) : List Diagnostic :=
  diagnostics.filter fun diagnostic =>
    diagnostic.message = "input ended inside rulebase"

private theorem unfinished_rule (cursor : Cursor) :
    unfinished (Rule.read cursor).diagnostics = [] := by
  apply List.filter_eq_nil_iff.mpr
  intro diagnostic member isMessage
  have known := Rule.message_of_mem_read cursor diagnostic member
  rw [of_decide_eq_true isMessage] at known
  exact absurd known (by decide)

/-- The rules of a rulebase are those among its items, and the reading ends
behind the items. -/
theorem Items.readAll {cursor stop : Cursor} {items : List Item}
    (found : Items cursor items stop) (name : String) :
    (Rule.readAll name cursor).value = items.filterMap Item.rule? ∧
      (Rule.readAll name cursor).cursor = stop.advance 1 ∧
      unfinished (Rule.readAll name cursor).diagnostics =
        if stop.isAtEnd then [.unfinishedRulebase name] else [] := by
  induction found with
  | @closed cursor stops =>
      cases atEnd : cursor.isAtEnd with
      | true =>
          rw [Rule.readAll_of_isAtEnd name atEnd]
          exact ⟨rfl, rfl, rfl⟩
      | false =>
          rw [Rule.readAll_of_end name (by simpa [atEnd] using stops)]
          exact ⟨rfl, rfl, rfl⟩
  | passed inside notEnd notRule _ ih =>
      rw [Rule.readAll_of_other name inside notEnd notRule]
      exact ih
  | @rule cursor stop items width value inside isRule read moved _ ih =>
      obtain ⟨values, movedAll, ended⟩ := ih
      rw [← moved] at values movedAll ended
      rw [Rule.readAll_of_rule name inside isRule]
      refine ⟨?_, movedAll, ?_⟩
      · rw [List.filterMap_cons, ← read]
        exact congrArg _ values
      · change unfinished (_ ++ _) = _
        rw [unfinished, List.filter_append]
        exact (congrArg (· ++ _) (unfinished_rule cursor)).trans ended

theorem readBody_of_unmatched {scope : Scope} {cursor : Cursor}
    (unmatched : scope.universeId? (cursor.peekNth 1).value = none) (id : Nat) :
    readBody scope id cursor = ⟨⟨id, (cursor.peekNth 1).value, none, []⟩,
      cursor.advance 3, [.unmatchedRulebase (cursor.peekNth 1).value]⟩ := by
  rw [readBody, unmatched]

private theorem readBody_of_items {scope : Scope} {cursor stop : Cursor}
    {items : List Item} {consequent : Nat}
    (matched : scope.universeId? (cursor.peekNth 1).value = some consequent)
    (found : Items (cursor.advance 2) items stop) (id : Nat) :
    (readBody scope id cursor).value =
        ⟨id, (cursor.peekNth 1).value, some consequent,
          items.filterMap Item.rule?⟩ ∧
      (readBody scope id cursor).cursor = stop.advance 1 ∧
      unfinished (readBody scope id cursor).diagnostics =
        if stop.isAtEnd then [.unfinishedRulebase (cursor.peekNth 1).value]
        else [] := by
  obtain ⟨rules, moved, ended⟩ := found.readAll (cursor.peekNth 1).value
  rw [readBody, matched]
  refine ⟨congrArg _ rules, moved, ?_⟩
  rw [← ended]
  change unfinished (_ ++ _) = _
  rw [unfinished, List.filter_append]
  exact List.append_nil _

end Rulebase

private theorem Progress.run_of_claimed {progress : Progress}
    (stands : progress.cursor.peek.isKeyword "rulebase" = true)
    (claimed : progress.name ∈ progress.scope.rulebases) :
    progress.run = .error ⟨.duplicateRulebase progress.name, progress⟩ := by
  apply Progress.run_of_step_eq_error
  · apply Cursor.isAtEnd_of_peek_ne_empty
    rw [Token.eq_keyword_of_isKeyword stands]
    decide
  · rw [Progress.step_of_rulebase stands, if_pos claimed]

namespace Progress

/-- Runs an action on the scope, and keeps the scope that it leaves, even by a
failure. -/
def onScope {α : Type} (action : EStateM CompileError Scope α) :
    EStateM CompileError Progress α := fun progress =>
  match action.run progress.scope with
  | .ok value scope => .ok value { progress with scope := scope }
  | .error error scope => .error error { progress with scope := scope }

def pass (count : Nat) : EStateM CompileError Progress Unit :=
  modify fun progress =>
    { progress with cursor := progress.cursor.advance count }

def note (diagnostic : Diagnostic) : EStateM CompileError Progress Unit :=
  modify fun progress =>
    { progress with diagnostics := progress.diagnostics.push diagnostic }

/-- Goes on behind what a reader takes from the cursor on. -/
def follow {α : Type} (reader : Cursor → Reading α) :
    EStateM CompileError Progress α :=
  modifyGet fun progress =>
    let reading := reader progress.cursor
    (reading.value, { progress with
      cursor := reading.cursor
      diagnostics := progress.diagnostics ++ reading.diagnostics })

/-- Reads the rulebase at the cursor in place, one move after another. Its name
is claimed first, and a failure leaves whatever has been done by then. -/
def readRulebase : EStateM CompileError Progress Rulebase := do
  let name := (← get).name
  let id ← onScope (Scope.claimInPlace name)
  match (← get).scope.universeId? name with
  | none =>
      note (.unmatchedRulebase name)
      pass 3
      return ⟨id, name, none, []⟩
  | some consequent =>
      pass 2
      let rules ← follow (Rule.readAll name)
      note (.rulebaseRead id name consequent rules.length)
      return ⟨id, name, some consequent, rules⟩

private theorem run_onScope_claim (progress : Progress) (name : String) :
    (onScope (Scope.claimInPlace name)).run progress =
      if name ∈ progress.scope.rulebases then
        .error (.duplicateRulebase name) progress
      else
        .ok progress.scope.rulebases.length
          { progress with scope := progress.scope.claimed name } := by
  rw [EStateM.run, onScope, Scope.run_claimInPlace, Scope.claim]
  by_cases repeated : name ∈ progress.scope.rulebases
  · rw [if_pos repeated, if_pos repeated]
  · rw [if_neg repeated, if_neg repeated]
    rfl

theorem run_readRulebase (progress : Progress) :
    readRulebase.run progress =
      match Rulebase.read progress.scope progress.cursor with
      | .error error => .error error progress
      | .ok (scope, reading) => .ok reading.value { progress with
          cursor := reading.cursor
          scope := scope
          diagnostics := progress.diagnostics ++ reading.diagnostics } := by
  change (onScope (Scope.claimInPlace progress.name) >>= _).run progress = _
  rw [EStateM.run_bind, run_onScope_claim, Rulebase.read_eq, ← name]
  by_cases repeated : progress.name ∈ progress.scope.rulebases
  · rw [if_pos repeated, if_pos repeated]
  · rw [if_neg repeated, if_neg repeated]
    dsimp only
    rw [EStateM.run_bind, EStateM.run_get, Rulebase.readBody, ← name]
    dsimp only
    cases (progress.scope.claimed progress.name).universeId? progress.name with
    | none => rfl
    | some consequent =>
        let rules := Rule.readAll progress.name (progress.cursor.advance 2)
        have noted (last : Diagnostic) :
            (progress.diagnostics ++ rules.diagnostics).push last =
              progress.diagnostics ++ (rules.diagnostics ++ [last]) := by
          apply Array.toList_inj.mp
          simp
        exact congrArg (fun diagnostics => EStateM.Result.ok _
          (Progress.mk rules.cursor progress.claimed progress.lines
            diagnostics)) (noted _)

end Progress

theorem Scope.Lawful.isLeast_id {scope : Scope} (lawful : scope.Lawful)
    {name : String} {id : Nat} (found : scope.universeId? name = some id) :
    IsLeast {id | ∃ u ∈ scope.universes, u.id = id ∧ u.name = name} id := by
  obtain ⟨u, isUniverse, isId, named⟩ := lawful.exists_universe found
  refine ⟨⟨u, List.mem_of_getElem? isUniverse, isId, named⟩, ?_⟩
  rintro _ ⟨other, member, rfl, otherNamed⟩
  obtain ⟨place, isAt⟩ := List.mem_iff_getElem?.mp member
  rw [lawful.id_eq isAt]
  apply ((lawful.universeId?_eq_some_iff name id).mp found).2
  simp [places, isAt, otherNamed]

namespace Rulebase

/-- A rulebase whose name was claimed before is refused; reading it in place
leaves everything as it was, and a run that stands at it ends there. Otherwise
only the name is claimed. Without a universe of the name, three tokens are
passed. With one, the tokens behind the name fall into items in one way, the
rules are those among the items, and the reading ends behind the `end` that
follows them, or past the end of the tokens with a warning. -/
theorem read_decomposes (operations : List Scope.Operation)
    (tokens : List Token) (position : Nat) :
    let scope := (Scope.History.of operations).scope
    let cursor := (Cursor.start tokens).advance position
    let name := (cursor.peekNth 1).value
    (name ∈ scope.rulebases →
      read scope cursor = .error (.duplicateRulebase name) ∧
        ∀ progress : Progress, progress.cursor = cursor →
          progress.scope = scope →
          Progress.readRulebase.run progress =
              .error (.duplicateRulebase name) progress ∧
            (cursor.peek.isKeyword "rulebase" = true →
              progress.run = .error ⟨.duplicateRulebase name, progress⟩)) ∧
    (name ∉ scope.rulebases → ∃ reading,
      read scope cursor =
          .ok ({ scope with rulebases := scope.rulebases ++ [name] }, reading) ∧
        (∀ progress : Progress, progress.cursor = cursor →
          progress.scope = scope →
          Progress.readRulebase.run progress = .ok reading.value { progress with
            cursor := reading.cursor
            scope := { scope with rulebases := scope.rulebases ++ [name] }
            diagnostics := progress.diagnostics ++ reading.diagnostics }) ∧
        reading.value.id = scope.rulebases.length ∧ reading.value.name = name ∧
        (name ∉ scope.universes.map Universe.name →
          reading.value.consequent = none ∧ reading.value.rules = [] ∧
            reading.cursor = cursor.advance 3 ∧
            reading.diagnostics = [.unmatchedRulebase name]) ∧
        (name ∈ scope.universes.map Universe.name → ∃ items stop,
          Items (cursor.advance 2) items stop ∧
            (∀ others other, Items (cursor.advance 2) others other →
              others = items ∧ other = stop) ∧
            tokens.drop (position + 2) =
              items.flatMap Item.tokens ++ stop.rest ∧
            (stop.isAtEnd = true ∨ stop.peek.value = "end") ∧
            stop = cursor.advance (2 + (items.map Item.width).sum) ∧
            reading.value.rules = items.filterMap Item.rule? ∧
            (∃ least, reading.value.consequent = some least ∧
              IsLeast {id | ∃ u ∈ scope.universes, u.id = id ∧
                u.name = name} least) ∧
            reading.cursor = stop.advance 1 ∧
            unfinished reading.diagnostics =
              if tokens.length < reading.cursor.position then
                [.unfinishedRulebase name]
              else [])) := by
  intro scope cursor name
  have lawful : scope.Lawful := (Scope.History.lawful_of operations).scope
  constructor
  · intro repeated
    have refused : read scope cursor = .error (.duplicateRulebase name) := by
      rw [read_eq, if_pos repeated]
    refine ⟨refused, ?_⟩
    intro progress isCursor isScope
    refine ⟨by rw [Progress.run_readRulebase, isCursor, isScope, refused], ?_⟩
    intro opens
    have stands : progress.cursor.peek.isKeyword "rulebase" = true :=
      isCursor ▸ opens
    have isName : progress.name = name := by rw [Progress.name, isCursor]
    have claimed : progress.name ∈ progress.scope.rulebases := by
      rwa [isName, isScope]
    rw [← isName]
    exact Progress.run_of_claimed stands claimed
  · intro fresh
    have succeeded : read scope cursor = .ok (scope.claimed name,
        readBody (scope.claimed name) scope.rulebases.length cursor) := by
      rw [read_eq, if_neg fresh]
    refine ⟨_, succeeded, ?_, ?_⟩
    · intro progress isCursor isScope
      rw [Progress.run_readRulebase, isCursor, isScope, succeeded]
      rfl
    cases matched : scope.universeId? name with
    | none =>
        have unmatched : (scope.claimed name).universeId? name = none := matched
        rw [readBody_of_unmatched unmatched]
        refine ⟨rfl, rfl, fun _ => ⟨rfl, rfl, rfl, rfl⟩, ?_⟩
        intro named
        exact absurd named ((lawful.universeId?_eq_none_iff name).mp matched)
    | some least =>
        have claimed : (scope.claimed name).universeId? name = some least :=
          matched
        obtain ⟨items, stop, found⟩ := exists_items (cursor.advance 2)
        obtain ⟨value, moved, ended⟩ :=
          readBody_of_items claimed found scope.rulebases.length
        have fromStart : Items ((Cursor.start tokens).advance (position + 2))
            items stop := by
          rw [← Cursor.advance_advance]
          exact found
        rw [value, moved, ended]
        refine ⟨rfl, rfl, ?_, fun _ => ⟨items, stop, found,
          fun _ _ => found.unique, fromStart.rest_eq, found.stops, ?_, rfl,
          ⟨least, rfl, lawful.isLeast_id matched⟩, rfl, ?_⟩⟩
        · intro unnamed
          rw [(lawful.universeId?_eq_none_iff name).mpr unnamed] at matched
          cases matched
        · rw [← Cursor.advance_advance]
          exact found.stop_eq
        · exact if_congr fromStart.isAtEnd_stop_iff rfl rfl

/-- A rulebase name that is taken, and a universe for a rulebase to conclude
on. -/
def oneUniverse : List Scope.Operation :=
  [.claim "v", .declare "u" []]

/-- Quoted words close a rule and, behind a word that is passed over, the
rulebase. -/
def quotedEnds : List Token :=
  [.keyword "rulebase", ⟨.literal, "u"⟩, .keyword "is", .keyword "rule",
    ⟨.literal, "c"⟩, .keyword "when", ⟨.literal, "end"⟩, .keyword "and",
    ⟨.literal, "end"⟩, .keyword "rule"]

/-- The rule has one antecedent, of which only the first token is there. -/
def brokenRule : List Token :=
  [.keyword "rulebase", ⟨.literal, "u"⟩, .keyword "rule", ⟨.literal, "c"⟩,
    .keyword "when", ⟨.literal, "w"⟩]

private theorem items_quotedEnds :
    Items ((Cursor.start quotedEnds).advance 2)
      [.passed (.keyword "is"),
        .rule 4 [.keyword "rule", ⟨.literal, "c"⟩, .keyword "when",
          ⟨.literal, "end"⟩] ⟨"c", []⟩,
        .passed (.keyword "and")]
      ((Cursor.start quotedEnds).advance 8) := by
  apply Items.passed rfl (by decide) (by decide)
  apply Items.rule rfl rfl (by decide +kernel) (by decide +kernel)
  apply Items.passed rfl (by decide) (by decide)
  exact .closed (Or.inr rfl)

private theorem items_brokenRule :
    Items ((Cursor.start brokenRule).advance 2)
      [.rule 7 [.keyword "rule", ⟨.literal, "c"⟩, .keyword "when",
        ⟨.literal, "w"⟩] ⟨"c", [⟨"w", ""⟩]⟩]
      ((Cursor.start brokenRule).advance 9) := by
  apply Items.rule rfl rfl (by decide +kernel) (by decide +kernel)
  exact .closed (Or.inl rfl)

theorem read_decomposes_quotedEnds :
    let scope := (Scope.History.of oneUniverse).scope
    (∃ reading, read scope (.start quotedEnds) =
      .ok (scope.claimed "u", reading) ∧
      reading.value.rules = [⟨"c", []⟩] ∧
      reading.cursor = (Cursor.start quotedEnds).advance 9 ∧
      unfinished reading.diagnostics = []) ∧
    (∃ reading, read scope (.start brokenRule) =
      .ok (scope.claimed "u", reading) ∧
      reading.value.rules = [⟨"c", [⟨"w", ""⟩]⟩] ∧
      reading.cursor = (Cursor.start brokenRule).advance 10 ∧
      unfinished reading.diagnostics = [.unfinishedRulebase "u"]) ∧
    read scope (.start [.keyword "rulebase", ⟨.other, "v"⟩]) =
      .error (.duplicateRulebase "v") ∧
    let taken : Progress :=
      { cursor := .start [.keyword "rulebase", ⟨.other, "v"⟩], scope := scope }
    Progress.readRulebase.run taken =
      .error (.duplicateRulebase "v") taken := by
  intro scope
  obtain ⟨refused, inPlace⟩ := (read_decomposes oneUniverse
    [.keyword "rulebase", ⟨.other, "v"⟩] 0).1 (by decide)
  refine ⟨?_, ?_, refused, (inPlace _ rfl rfl).1⟩
  · obtain ⟨reading, isRead, _, _, _, _, matched⟩ :=
      (read_decomposes oneUniverse quotedEnds 0).2 (by decide)
    obtain ⟨items, stop, _, unique, _, _, _, rules, _, moved, ended⟩ :=
      matched (by decide)
    obtain ⟨rfl, rfl⟩ := unique _ _ items_quotedEnds
    refine ⟨reading, isRead, rules, moved, ?_⟩
    rw [ended, moved]
    rfl
  · obtain ⟨reading, isRead, _, _, _, _, matched⟩ :=
      (read_decomposes oneUniverse brokenRule 0).2 (by decide)
    obtain ⟨items, stop, _, unique, _, _, _, rules, _, moved, ended⟩ :=
      matched (by decide)
    obtain ⟨rfl, rfl⟩ := unique _ _ items_brokenRule
    refine ⟨reading, isRead, rules, moved, ?_⟩
    rw [ended, moved]
    rfl

end Rulebase

end FuzzyRules
