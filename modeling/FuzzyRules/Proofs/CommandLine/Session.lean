import FuzzyRules.CommandLine.Run
import Mathlib

namespace FuzzyRules.CommandLine

open Text (isBlankLine)

/-- A list starts with one maximal run of accepted elements only. -/
theorem front_unique {α : Type} {accepts : α → Prop}
    {front rest otherFront otherRest : List α}
    (accepted : ∀ x ∈ front, accepts x) (stops : ∀ x ∈ rest.head?, ¬accepts x)
    (otherAccepted : ∀ x ∈ otherFront, accepts x)
    (otherStops : ∀ x ∈ otherRest.head?, ¬accepts x)
    (same : front ++ rest = otherFront ++ otherRest) :
    front = otherFront ∧ rest = otherRest := by
  induction front generalizing otherFront with
  | nil =>
      cases otherFront with
      | nil => exact ⟨rfl, same⟩
      | cons x others =>
          rw [List.nil_append] at same
          exact absurd (otherAccepted x List.mem_cons_self)
            (stops x (by simp [same]))
  | cons x front ih =>
      cases otherFront with
      | nil =>
          rw [List.nil_append] at same
          exact absurd (accepted x List.mem_cons_self)
            (otherStops x (by simp [← same]))
      | cons y otherFront =>
          obtain ⟨rfl, behind⟩ := List.cons.inj same
          obtain ⟨rfl, rest⟩ := ih (List.forall_mem_cons.mp accepted).2
            (List.forall_mem_cons.mp otherAccepted).2 behind
          exact ⟨rfl, rest⟩

/-- Lines that show something, up to a blank line, and all the blank lines from
there on. -/
@[ext] structure Block where
  lines : List String
  gap : List String
  lines_ne_nil : lines ≠ []
  gap_ne_nil : gap ≠ []
  visible : ∀ line ∈ lines, isBlankLine line = false
  blank : ∀ line ∈ gap, isBlankLine line = true

namespace Block

def textOf (lines : List String) : String :=
  String.join (lines.map (· ++ "\n"))

def text (block : Block) : String :=
  textOf block.lines

def all (block : Block) : List String :=
  block.lines ++ block.gap

private theorem textOf_cons (line : String) (lines : List String) :
    textOf (line :: lines) = line ++ "\n" ++ textOf lines :=
  String.join_cons

private theorem text_ne_empty (block : Block) : block.text ≠ "" := by
  rw [text]
  cases found : block.lines with
  | nil => exact absurd found block.lines_ne_nil
  | cons line others => simp [textOf_cons]

end Block

/-- The lines of a session: its blocks, blank lines before the first, and the
lines of a block that no blank line ends. -/
@[ext] structure Transcript where
  margin : List String
  blocks : List Block
  pending : List String
  blank : ∀ line ∈ margin, isBlankLine line = true
  visible : ∀ line ∈ pending, isBlankLine line = false

namespace Transcript

def body (blocks : List Block) (pending : List String) : List String :=
  blocks.flatMap Block.all ++ pending

def lines (transcript : Transcript) : List String :=
  transcript.margin ++ body transcript.blocks transcript.pending

/-! There is one transcript for each list of lines. -/

theorem body_cons (block : Block) (blocks : List Block)
    (pending : List String) :
    body (block :: blocks) pending =
      block.lines ++ (block.gap ++ body blocks pending) := by
  simp [body, Block.all]

theorem exists_lines_eq (lines : List String) :
    ∃ transcript : Transcript, transcript.lines = lines := by
  induction lines with
  | nil => exact ⟨⟨[], [], [], by simp, by simp⟩, rfl⟩
  | cons line others ih =>
      obtain ⟨⟨margin, blocks, pending, blank, visible⟩, rfl⟩ := ih
      cases isBlank : isBlankLine line with
      | true =>
          have allBlank : ∀ other ∈ line :: margin, isBlankLine other = true :=
            List.forall_mem_cons.mpr ⟨isBlank, blank⟩
          exact ⟨⟨line :: margin, blocks, pending, allBlank, visible⟩, rfl⟩
      | false =>
          -- A visible line is a block if a blank line follows, and else joins
          -- the next block.
          cases margin with
          | cons first gap =>
              let block : Block :=
                ⟨[line], first :: gap, by simp, by simp, by simpa, blank⟩
              refine ⟨⟨[], block :: blocks, pending, by simp, visible⟩, ?_⟩
              simp [Transcript.lines, body, Block.all, block]
          | nil =>
              cases blocks with
              | nil =>
                  have allVisible : ∀ other ∈ line :: pending,
                      isBlankLine other = false :=
                    List.forall_mem_cons.mpr ⟨isBlank, visible⟩
                  exact ⟨⟨[], [], line :: pending, by simp, allVisible⟩, rfl⟩
              | cons block blocks =>
                  let extended : Block :=
                    { block with
                      lines := line :: block.lines
                      lines_ne_nil := List.cons_ne_nil _ _
                      visible :=
                        List.forall_mem_cons.mpr ⟨isBlank, block.visible⟩ }
                  exact ⟨⟨[], extended :: blocks, pending, by simp, visible⟩,
                    rfl⟩

theorem visible_head_body {blocks : List Block} {pending : List String}
    (visible : ∀ line ∈ pending, isBlankLine line = false) :
    ∀ line ∈ (body blocks pending).head?, ¬isBlankLine line = true := by
  intro line isHead
  rw [Bool.not_eq_true]
  cases blocks with
  | nil => exact visible line (List.mem_of_mem_head? isHead)
  | cons block blocks =>
      rw [body_cons, List.head?_append_of_ne_nil _ block.lines_ne_nil] at isHead
      exact block.visible line (List.mem_of_mem_head? isHead)

theorem blank_head_gap (block : Block) (rest : List String) :
    ∀ line ∈ (block.gap ++ rest).head?, ¬isBlankLine line = false := by
  intro line isHead
  rw [Bool.not_eq_false]
  rw [List.head?_append_of_ne_nil _ block.gap_ne_nil] at isHead
  exact block.blank line (List.mem_of_mem_head? isHead)

theorem exists_blank_mem_body (block : Block) (blocks : List Block)
    (pending : List String) :
    ∃ line ∈ body (block :: blocks) pending, isBlankLine line = true := by
  obtain ⟨line, member⟩ := List.exists_mem_of_ne_nil _ block.gap_ne_nil
  refine ⟨line, ?_, block.blank line member⟩
  rw [body_cons]
  exact List.mem_append_right _ (List.mem_append_left _ member)

theorem body_injective {blocks otherBlocks : List Block}
    {pending otherPending : List String}
    (visible : ∀ line ∈ pending, isBlankLine line = false)
    (otherVisible : ∀ line ∈ otherPending, isBlankLine line = false)
    (same : body blocks pending = body otherBlocks otherPending) :
    blocks = otherBlocks ∧ pending = otherPending := by
  induction blocks generalizing otherBlocks with
  | nil =>
      cases otherBlocks with
      | nil => exact ⟨rfl, same⟩
      | cons block others =>
          obtain ⟨line, member, blank⟩ :=
            exists_blank_mem_body block others otherPending
          have shown := visible line (by rwa [← same] at member)
          simp [shown] at blank
  | cons block blocks ih =>
      cases otherBlocks with
      | nil =>
          obtain ⟨line, member, blank⟩ :=
            exists_blank_mem_body block blocks pending
          have shown := otherVisible line (by rwa [same] at member)
          simp [shown] at blank
      | cons other others =>
          rw [body_cons, body_cons] at same
          obtain ⟨lines, behind⟩ := front_unique block.visible
            (blank_head_gap block _) other.visible (blank_head_gap other _) same
          obtain ⟨gap, rest⟩ := front_unique block.blank (visible_head_body
            visible) other.blank (visible_head_body otherVisible) behind
          obtain ⟨rfl, isPending⟩ := ih rest
          exact ⟨congrArg (· :: blocks) (Block.ext lines gap), isPending⟩

theorem lines_injective {transcript other : Transcript}
    (same : transcript.lines = other.lines) : transcript = other := by
  obtain ⟨margin, rest⟩ := front_unique transcript.blank (visible_head_body
    transcript.visible) other.blank (visible_head_body other.visible) same
  obtain ⟨blocks, pending⟩ :=
    body_injective transcript.visible other.visible rest
  exact Transcript.ext margin blocks pending

end Transcript

@[simp] theorem Report.empty_andThen (report : Report) :
    ({} : Report).andThen report = report := by
  simp [andThen]

namespace Session

variable (listsTokens : Bool)

/-- Answers take nothing away from what comes after them and are never
failures. -/
theorem foldr_answerBlock (blocks : List Block) (last : Report) :
    (blocks.map fun block => answerBlock listsTokens block.text).foldr
      Report.andThen last =
      { last with
        output := String.join (blocks.map fun block =>
          (answerBlock listsTokens block.text).output) ++ last.output
        log := (blocks.flatMap fun block =>
          (answerBlock listsTokens block.text).log) ++ last.log } := by
  induction blocks with
  | nil => simp
  | cons block others ih =>
      rw [List.map_cons, List.foldr_cons, ih]
      simp [Report.andThen, String.append_assoc, answerBlock]

private theorem run_of_visible {line : String}
    (visible : isBlankLine line = false) (block : String)
    (rest : List (Except ReadError String)) :
    run listsTokens block (.ok line :: rest) =
      run listsTokens (block ++ line ++ "\n") rest := by
  simp [run, feed, visible]

private theorem run_empty_of_blank {line : String}
    (blank : isBlankLine line = true) (rest : List (Except ReadError String)) :
    run listsTokens "" (.ok line :: rest) = run listsTokens "" rest := by
  simp [run, feed, blank]

private theorem run_of_blank {line block : String}
    (blank : isBlankLine line = true) (begun : block ≠ "")
    (rest : List (Except ReadError String)) :
    run listsTokens block (.ok line :: rest) =
      (answerBlock listsTokens block).andThen (run listsTokens "" rest) := by
  simp [run, feed, blank, begun]

private theorem run_visible {lines : List String}
    (visible : ∀ line ∈ lines, isBlankLine line = false) (block : String)
    (rest : List (Except ReadError String)) :
    run listsTokens block (lines.map .ok ++ rest) =
      run listsTokens (block ++ Block.textOf lines) rest := by
  induction lines generalizing block with
  | nil => simp [Block.textOf]
  | cons line others ih =>
      obtain ⟨here, later⟩ := List.forall_mem_cons.mp visible
      rw [List.map_cons, List.cons_append, run_of_visible listsTokens here,
        ih later, Block.textOf_cons]
      simp only [String.append_assoc]

private theorem run_blank {lines : List String}
    (blank : ∀ line ∈ lines, isBlankLine line = true)
    (rest : List (Except ReadError String)) :
    run listsTokens "" (lines.map .ok ++ rest) = run listsTokens "" rest := by
  induction lines with
  | nil => rfl
  | cons line others ih =>
      obtain ⟨here, later⟩ := List.forall_mem_cons.mp blank
      rw [List.map_cons, List.cons_append, run_empty_of_blank listsTokens here,
        ih later]

private theorem run_block (block : Block)
    (rest : List (Except ReadError String)) :
    run listsTokens "" (block.all.map .ok ++ rest) =
      (answerBlock listsTokens block.text).andThen
        (run listsTokens "" rest) := by
  rw [Block.all, List.map_append, List.append_assoc,
    run_visible listsTokens block.visible, String.empty_append, ← Block.text]
  -- The first blank line has the block answered; the others find nothing to
  -- answer.
  cases found : block.gap with
  | nil => exact absurd found block.gap_ne_nil
  | cons line others =>
      obtain ⟨here, later⟩ := List.forall_mem_cons.mp (found ▸ block.blank)
      rw [List.map_cons, List.cons_append,
        run_of_blank listsTokens here block.text_ne_empty,
        run_blank listsTokens later]

private theorem run_blocks (blocks : List Block)
    (rest : List (Except ReadError String)) :
    run listsTokens "" ((blocks.flatMap Block.all).map .ok ++ rest) =
      (blocks.map fun block => answerBlock listsTokens block.text).foldr
        Report.andThen
        (run listsTokens "" rest) := by
  induction blocks with
  | nil => rfl
  | cons block others ih =>
      rw [List.flatMap_cons, List.map_append, List.append_assoc, run_block, ih,
        List.map_cons, List.foldr_cons]

/-- The answers to the blocks, and then whatever the rest of the lines comes
to. -/
theorem run_transcript (transcript : Transcript)
    (rest : List (Except ReadError String)) :
    run listsTokens "" (transcript.lines.map .ok ++ rest) =
      (transcript.blocks.map fun block =>
        answerBlock listsTokens block.text).foldr Report.andThen
        (run listsTokens (Block.textOf transcript.pending) rest) := by
  have pending := run_visible listsTokens transcript.visible "" rest
  rw [String.empty_append] at pending
  rw [Transcript.lines, List.map_append, List.append_assoc,
    run_blank listsTokens transcript.blank, Transcript.body, List.map_append,
    List.append_assoc, run_blocks, pending]

end Session

private theorem decodeText_toUTF8 (text : String) :
    decodeText text.toUTF8 = .ok text := by
  have read : String.fromUTF8? text.toUTF8 = some text :=
    dif_pos text.isValidUTF8
  rw [decodeText, read]

private theorem decodeText_of_not_valid {bytes : ByteArray}
    (invalid : ¬bytes.IsValidUTF8) : decodeText bytes = .error .notText := by
  have unread : String.fromUTF8? bytes = none := dif_neg invalid
  rw [decodeText, unread]

namespace Session

def unreadable : Report :=
  .failure "Failed to read input" (some ReadError.notText.message)

/-- The lines, up to the first that is no text, are those of a transcript. -/
structure Reads (lines : List ByteArray) (transcript : Transcript)
    (unread : List ByteArray) : Prop where
  lines_eq : lines = transcript.lines.map String.toUTF8 ++ unread
  stops : ∀ bytes ∈ unread.head?, ¬bytes.IsValidUTF8

theorem exists_reads (lines : List ByteArray) :
    ∃ transcript unread, Reads lines transcript unread := by
  have split : ∃ (texts : List String) (unread : List ByteArray),
      lines = texts.map String.toUTF8 ++ unread ∧
        ∀ bytes ∈ unread.head?, ¬bytes.IsValidUTF8 := by
    induction lines with
    | nil => exact ⟨[], [], rfl, by simp⟩
    | cons bytes others ih =>
        by_cases valid : bytes.IsValidUTF8
        · obtain ⟨texts, unread, rfl, stops⟩ := ih
          exact ⟨.ofByteArray bytes valid :: texts, unread, rfl, stops⟩
        · exact ⟨[], bytes :: others, rfl, by simpa using valid⟩
  obtain ⟨texts, unread, rfl, stops⟩ := split
  obtain ⟨transcript, rfl⟩ := Transcript.exists_lines_eq texts
  exact ⟨transcript, unread, rfl, stops⟩

namespace Reads

variable {lines unread : List ByteArray} {transcript : Transcript}

theorem unique (reads : Reads lines transcript unread) {other : Transcript}
    {rest : List ByteArray} (otherReads : Reads lines other rest) :
    other = transcript ∧ rest = unread := by
  have valid (texts : List String) : ∀ bytes ∈ texts.map String.toUTF8,
      bytes.IsValidUTF8 := by
    intro bytes member
    obtain ⟨text, _, rfl⟩ := List.mem_map.mp member
    exact text.isValidUTF8
  obtain ⟨texts, rests⟩ := front_unique (valid _) otherReads.stops (valid _)
    reads.stops (otherReads.lines_eq.symm.trans reads.lines_eq)
  have injective : Function.Injective String.toUTF8 :=
    fun _ _ => String.toByteArray_inj.mp
  exact ⟨Transcript.lines_injective
    (List.map_injective_iff.mpr injective texts), rests⟩

/-- The run is over at the first line that is no text, whatever block has been
begun. -/
theorem run_unread (reads : Reads lines transcript unread) (listsTokens : Bool)
    (block : String) :
    run listsTokens block (unread.map decodeText) =
      if unread = [] then {} else unreadable := by
  cases unread with
  | nil => rfl
  | cons bytes others =>
      rw [List.map_cons, decodeText_of_not_valid (reads.stops bytes rfl)]
      rfl

theorem run_eq (reads : Reads lines transcript unread) (listsTokens : Bool) :
    run listsTokens "" (lines.map decodeText) =
      (transcript.blocks.map fun block =>
        answerBlock listsTokens block.text).foldr Report.andThen
        (if unread = [] then {} else unreadable) := by
  have decoded :
      (transcript.lines.map String.toUTF8).map decodeText =
        transcript.lines.map .ok := by
    rw [List.map_map]
    exact List.map_congr_left fun text _ => decodeText_toUTF8 text
  rw [reads.lines_eq, List.map_append, decoded, run_transcript,
    reads.run_unread]

end Reads

/-- What a session prints is what it answers to each block that a blank line
ends, and nothing else: neither blank lines nor other blocks matter to an
answer. It fails exactly when some line is no text, and then has answered the
blocks before that line. -/
theorem run_answers_blocks (listsTokens : Bool) (lines : List ByteArray) :
    ∃ transcript unread, Reads lines transcript unread ∧
      (∀ other rest, Reads lines other rest →
        other = transcript ∧ rest = unread) ∧
      let report := run listsTokens "" (lines.map decodeText)
      report.output = String.join (transcript.blocks.map fun block =>
        match (Answer.ofSource listsTokens block.text).result with
        | .ok text => text
        | .error error => "Error: " ++ error.message ++ "\n") ∧
      report.log = (transcript.blocks.flatMap fun block =>
        (Answer.ofSource listsTokens block.text).log) ∧
      (unread = [] → report.exitCode = 0 ∧ report.errors = "") ∧
      (unread ≠ [] → report.exitCode = 1 ∧
        report.errors = unreadable.errors ∧
        report.output =
          (run listsTokens "" (transcript.lines.map .ok)).output) := by
  obtain ⟨transcript, unread, reads⟩ := exists_reads lines
  have before := run_transcript listsTokens transcript []
  rw [List.append_nil, foldr_answerBlock] at before
  refine ⟨transcript, unread, reads, fun _ _ => reads.unique, ?_⟩
  intro report
  have answered : report = _ :=
    (reads.run_eq listsTokens).trans (foldr_answerBlock _ _ _)
  rw [answered, before]
  by_cases finished : unread = []
  · rw [if_pos finished]
    exact ⟨String.append_empty, List.append_nil _, fun _ => ⟨rfl, rfl⟩,
      fun more => absurd finished more⟩
  · rw [if_neg finished]
    exact ⟨String.append_empty, List.append_nil _,
      fun none => absurd none finished, fun _ => ⟨rfl, rfl, rfl⟩⟩

/-- Two blocks, the second of which is no source, with blank lines around them,
and a begun one. -/
def mixed : Transcript where
  margin := [""]
  blocks :=
    [⟨["x", " y"], [" ", "\t"], by simp, by simp, by decide, by decide⟩,
      ⟨["\""], [""], by simp, by simp, by decide, by decide⟩]
  pending := ["z"]
  blank := by decide
  visible := by decide

theorem run_answers_blocks_mixed :
    let lines :=
      ["", "x", " y", " ", "\t", "\"", "", "z"].map String.toUTF8 ++
        [⟨#[255]⟩, "".toUTF8]
    let report := run false "" (lines.map decodeText)
    report.output = String.join (["x\n y\n", "\"\n"].map fun source =>
      match (Answer.ofSource false source).result with
      | .ok text => text
      | .error error => "Error: " ++ error.message ++ "\n") ∧
      report.exitCode = 1 := by
  intro lines report
  have reads : Reads lines mixed [⟨#[255]⟩, "".toUTF8] :=
    ⟨rfl, by simpa using by decide⟩
  obtain ⟨transcript, unread, _, unique, output, _, _, failed⟩ :=
    run_answers_blocks false lines
  obtain ⟨rfl, rfl⟩ := unique _ _ reads
  exact ⟨output, (failed (by simp)).1⟩

end Session

end FuzzyRules.CommandLine
