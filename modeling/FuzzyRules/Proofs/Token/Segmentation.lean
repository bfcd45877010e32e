import FuzzyRules.Proofs.Token.Word
import FuzzyRules.Token.Scan

namespace FuzzyRules

/-! Every text has exactly one reading in pieces, up to a string that is never
closed, and scanning finds it. -/

inductive Piece where
  | separator (c : Char)
  | comment (body : List Char)
  | string (interior : List Char)
  | word (chars : List Char)
  deriving DecidableEq

namespace Piece

def text : Piece → List Char
  | separator c => [c]
  | comment body => '#' :: body
  | string interior => '"' :: (interior ++ ['"'])
  | .word chars => chars

/-- The piece ends where `rest` starts: comments and words go on as far as they
can. -/
def EndsBefore (rest : List Char) : Piece → Prop
  | separator c => isSeparator c = true
  | comment body =>
      (∀ c ∈ body, isLineBreak c = false) ∧ Stops (fun c => !isLineBreak c) rest
  | string interior => '"' ∉ interior
  | .word chars =>
      chars ≠ [] ∧ (∀ c ∈ chars, isWordChar c = true) ∧ Stops isWordChar rest

def token? : Piece → Option Token
  | separator _ => none
  | comment _ => none
  | string interior => some ⟨.literal, String.ofList interior⟩
  | .word chars => some (Word.token chars)

theorem EndsBefore.text_ne_nil {piece : Piece} {rest : List Char}
    (ends : piece.EndsBefore rest) : piece.text ≠ [] := by
  cases piece with
  | separator c => simp [text]
  | comment body => simp [text]
  | string interior => simp [text]
  | word chars => exact ends.1

/-- The piece that a text starts with. -/
def first? : List Char → Option (Piece × List Char)
  | [] => none
  | c :: rest =>
      if isSeparator c then some (separator c, rest)
      else if c = '#' then
        some (comment (rest.takeWhile (!isLineBreak ·)),
          rest.dropWhile (!isLineBreak ·))
      else if c = '"' then
        match rest.dropWhile (· ≠ '"') with
        | [] => none
        | _ :: afterQuote =>
            some (string (rest.takeWhile (· ≠ '"')), afterQuote)
      else some (word (c :: rest.takeWhile isWordChar),
        rest.dropWhile isWordChar)

private theorem first?_of_endsBefore {piece : Piece} {rest : List Char}
    (ends : piece.EndsBefore rest) :
    first? (piece.text ++ rest) = some (piece, rest) := by
  cases piece with
  | separator c =>
      have separator : isSeparator c = true := ends
      simp [text, first?, separator]
  | comment body =>
      obtain ⟨inLine, stops⟩ := ends
      have inComment : ∀ c ∈ body, (!isLineBreak c) = true := by
        simpa using inLine
      have noSeparator : isSeparator '#' = false := rfl
      simp [text, first?, noSeparator, stops.takeWhile_append inComment,
        stops.dropWhile_append inComment]
  | string interior =>
      have inside := forall_ne_of_not_mem ends
      have stops : Stops (· ≠ '"') ('"' :: rest) := by simp
      have noSeparator : isSeparator '"' = false := rfl
      simp only [text, List.cons_append, List.append_assoc, List.nil_append,
        first?, noSeparator, stops.takeWhile_append inside,
        stops.dropWhile_append inside]
      rfl
  | word chars =>
      obtain ⟨nonempty, all, stops⟩ := ends
      cases chars with
      | nil => exact absurd rfl nonempty
      | cons c others =>
          have allOthers : ∀ d ∈ others, isWordChar d = true :=
            fun d member => all d (List.mem_cons_of_mem c member)
          have wordChar := all c List.mem_cons_self
          simp only [isWordChar, Bool.and_eq_true, Bool.not_eq_true',
            decide_eq_true_eq] at wordChar
          obtain ⟨⟨noSeparator, noQuote⟩, noHash⟩ := wordChar
          simp [text, first?, noSeparator, noQuote, noHash,
            stops.takeWhile_append allOthers, stops.dropWhile_append allOthers]

private theorem of_first?_eq_some {text rest : List Char} {piece : Piece}
    (first : first? text = some (piece, rest)) :
    piece.EndsBefore rest ∧ text = piece.text ++ rest := by
  cases text with
  | nil => cases first
  | cons c others =>
      simp only [first?] at first
      split at first
      · next separator =>
          cases first
          exact ⟨separator, rfl⟩
      split at first
      · next hash =>
          cases first
          refine ⟨⟨?_, Stops.dropWhile _ others⟩, ?_⟩
          · intro d member
            simpa using List.mem_takeWhile_imp member
          · simp [text, hash]
      split at first
      · next quote =>
          split at first
          · cases first
          · next closing afterQuote found =>
              cases first
              have stops := Stops.dropWhile (· ≠ '"') others
              rw [found] at stops
              have isQuote : closing = '"' := by simpa using stops
              have parts :=
                List.takeWhile_append_dropWhile (p := (· ≠ '"')) (l := others)
              rw [found, isQuote] at parts
              refine ⟨?_, ?_⟩
              · intro member
                simpa using List.mem_takeWhile_imp member
              · simp only [Piece.text, quote, List.cons_append,
                  List.append_assoc, List.nil_append, parts]
      · next noSeparator noHash noQuote =>
          cases first
          have wordChar : isWordChar c = true := by
            simp [isWordChar, noSeparator, noHash, noQuote]
          refine ⟨⟨by simp, ?_, Stops.dropWhile _ others⟩, ?_⟩
          · intro d member
            rcases List.mem_cons.mp member with rfl | inOthers
            · exact wordChar
            · exact List.mem_takeWhile_imp inOthers
          · simp [Piece.text]

private theorem of_first?_eq_none {text : List Char}
    (first : first? text = none) :
    text = [] ∨ ∃ body, text = '"' :: body ∧ '"' ∉ body := by
  cases text with
  | nil => exact Or.inl rfl
  | cons c others =>
      simp only [first?] at first
      split at first
      · cases first
      split at first
      · cases first
      split at first
      · next quote =>
          split at first
          · next found =>
              refine Or.inr ⟨others, by rw [quote], fun member => ?_⟩
              have allInside := List.dropWhile_eq_nil_iff.mp found '"' member
              simp at allInside
          · cases first
      · cases first

private theorem first?_unclosed {body : List Char}
    (noQuote : '"' ∉ body) : first? ('"' :: body) = none := by
  have found : body.dropWhile (· ≠ '"') = [] :=
    List.dropWhile_eq_nil_iff.mpr (forall_ne_of_not_mem noQuote)
  have noSeparator : isSeparator '"' = false := rfl
  simp only [first?, noSeparator, found]
  rfl

end Piece

/-- The text reads as the pieces, followed by a string that is never closed if
anything is left. -/
inductive Segmented : List Char → List Piece → List Char → Prop
  | finished : Segmented [] [] []
  | unclosed {body : List Char} (noQuote : '"' ∉ body) :
      Segmented ('"' :: body) [] ('"' :: body)
  | piece {piece : Piece} {pieces : List Piece} {rest left : List Char}
      (ends : piece.EndsBefore rest) (others : Segmented rest pieces left) :
      Segmented (piece.text ++ rest) (piece :: pieces) left

def startsGap (c : Char) : Bool :=
  isSeparator c || c = '#'

namespace Token

theorem afterGap_separator {c : Char} {rest : List Char}
    (separator : isSeparator c = true) :
    afterGap (c :: rest) = afterGap rest := by
  have start : (c :: rest).dropWhile isSeparator = rest.dropWhile isSeparator :=
    List.dropWhile_cons_of_pos separator
  cases split : Grammar.comment.split? (rest.dropWhile isSeparator) with
  | none =>
      rw [afterGap_of_split?_eq_none split,
        afterGap_of_split?_eq_none (by rw [start, split]), start]
  | some parts =>
      rw [afterGap_of_split?_eq_some split,
        afterGap_of_split?_eq_some (by rw [start, split])]

theorem afterGap_comment {body rest : List Char}
    (inLine : ∀ c ∈ body, isLineBreak c = false)
    (ends : Stops (fun c => !isLineBreak c) rest) :
    afterGap ('#' :: (body ++ rest)) = afterGap rest := by
  have takes : Grammar.comment.Takes (['#'] ++ body) rest :=
    .andThen (.exactly _ _) (.many (by simpa using inLine) ends)
  exact afterGap_of_split?_eq_some takes

private theorem afterGap_of_stops {text : List Char}
    (stops : Stops startsGap text) : afterGap text = text := by
  have noSeparator : Stops isSeparator text :=
    stops.mono (by simp +contextual [startsGap])
  have noHash : Stops (· = '#') text := stops.mono (by simp [startsGap])
  have refused : Grammar.comment.split? text = none :=
    Pattern.split?_andThen_of_none _ (Pattern.split?_exactly_of_stops noHash)
  rw [afterGap_of_split?_eq_none] <;> rw [noSeparator.dropWhile_eq_self]
  exact refused

theorem scanChars_congr {text other : List Char}
    (same : afterGap text = afterGap other) :
    scanChars text = scanChars other := by
  cases next : next? (afterGap other) with
  | none =>
      rw [scanChars_of_next?_eq_none next,
        scanChars_of_next?_eq_none (by rw [same, next]), same]
  | some parts =>
      rw [scanChars_of_next?_eq_some next,
        scanChars_of_next?_eq_some (by rw [same, next])]

theorem next?_token {piece : Piece} {rest : List Char} {token : Token}
    (ends : piece.EndsBefore rest) (reads : piece.token? = some token) :
    next? (piece.text ++ rest) = some (token, rest) ∧
      Stops startsGap (piece.text ++ rest) := by
  cases piece with
  | separator c => cases reads
  | comment body => cases reads
  | string interior =>
      cases reads
      have whole : (Piece.string interior).text ++ rest =
          '"' :: (interior ++ '"' :: rest) := by
        simp [Piece.text]
      rw [whole]
      exact ⟨next?_string ends, rfl⟩
  | word chars =>
      cases reads
      obtain ⟨nonempty, all, stops⟩ := ends
      refine ⟨next?_word nonempty all stops, ?_⟩
      cases chars with
      | nil => exact absurd rfl nonempty
      | cons c others =>
          have wordChar := isWordChar_iff.mp (all c List.mem_cons_self)
          simp [Piece.text, startsGap, isSeparator, wordChar]

/-- Scanning passes over separators and comments and turns every other piece
into its token. -/
theorem scanChars_piece {piece : Piece} {rest : List Char}
    (ends : piece.EndsBefore rest) :
    scanChars (piece.text ++ rest) =
      (scanChars rest).map (piece.token?.toList ++ ·) := by
  cases reads : piece.token? with
  | none =>
      have passed : scanChars (piece.text ++ rest) = scanChars rest := by
        apply scanChars_congr
        cases piece with
        | separator c => exact afterGap_separator ends
        | comment body => exact afterGap_comment ends.1 ends.2
        | string interior => cases reads
        | word chars => cases reads
      rw [passed]
      cases scanChars rest <;> rfl
  | some token =>
      obtain ⟨next, stops⟩ := next?_token ends reads
      exact scanChars_of_next?_eq_some (by rw [afterGap_of_stops stops, next])

theorem scanChars_of_stops {text : List Char} (stops : Stops startsGap text)
    (refused : next? text = none) :
    scanChars text = if text = [] then .ok [] else .error text := by
  have start := afterGap_of_stops stops
  rw [scanChars_of_next?_eq_none (by rw [start, refused]), start]

end Token

namespace Segmented

variable {text : List Char} {pieces : List Piece} {left : List Char}

theorem text_eq (segmented : Segmented text pieces left) :
    text = pieces.flatMap Piece.text ++ left := by
  induction segmented with
  | finished => rfl
  | unclosed _ => rfl
  | piece _ _ ih => rw [List.flatMap_cons, List.append_assoc, ← ih]

theorem left_eq (segmented : Segmented text pieces left) :
    left = [] ∨ ∃ body, left = '"' :: body ∧ '"' ∉ body := by
  induction segmented with
  | finished => exact Or.inl rfl
  | unclosed noQuote => exact Or.inr ⟨_, rfl, noQuote⟩
  | piece _ _ ih => exact ih

theorem scanChars_eq (segmented : Segmented text pieces left) :
    Token.scanChars text =
      if left = [] then .ok (pieces.filterMap Piece.token?)
      else .error left := by
  induction segmented with
  | finished => exact Token.scanChars_of_stops trivial Token.next?_nil
  | unclosed noQuote =>
      exact Token.scanChars_of_stops rfl (Token.next?_unclosed noQuote)
  | @piece piece pieces rest left ends _ ih =>
      have tokens : (piece :: pieces).filterMap Piece.token? =
          piece.token?.toList ++ pieces.filterMap Piece.token? := by
        cases reads : piece.token? <;> simp [reads]
      rw [Token.scanChars_piece ends, ih, tokens]
      by_cases finished : left = [] <;> simp [finished, Except.map]

theorem exists_of_text (text : List Char) :
    ∃ pieces left, Segmented text pieces left := by
  induction measure : text.length
    using Nat.strong_induction_on generalizing text with
  | _ size ih =>
      cases first : Piece.first? text with
      | none =>
          rcases Piece.of_first?_eq_none first with rfl | ⟨body, rfl, noQuote⟩
          · exact ⟨[], [], .finished⟩
          · exact ⟨[], _, .unclosed noQuote⟩
      | some parts =>
          obtain ⟨piece, rest⟩ := parts
          obtain ⟨ends, rfl⟩ := Piece.of_first?_eq_some first
          have nonempty := ends.text_ne_nil
          have shorter : rest.length < size := by
            have positive := List.length_pos_iff.mpr nonempty
            rw [← measure, List.length_append]
            omega
          obtain ⟨pieces, left, segmented⟩ := ih rest.length shorter rest rfl
          exact ⟨piece :: pieces, left, .piece ends segmented⟩

theorem first?_cases (segmented : Segmented text pieces left) :
    (Piece.first? text = none ∧ pieces = [] ∧ left = text) ∨
      ∃ piece rest others, Piece.first? text = some (piece, rest) ∧
        pieces = piece :: others ∧
        Segmented rest others left := by
  cases segmented with
  | finished => exact Or.inl ⟨rfl, rfl, rfl⟩
  | unclosed noQuote => exact Or.inl ⟨Piece.first?_unclosed noQuote, rfl, rfl⟩
  | piece ends others =>
      exact Or.inr ⟨_, _, _, Piece.first?_of_endsBefore ends, rfl, others⟩

theorem unique {otherPieces : List Piece} {otherLeft : List Char}
    (segmented : Segmented text pieces left)
    (other : Segmented text otherPieces otherLeft) :
    otherPieces = pieces ∧ otherLeft = left := by
  induction segmented generalizing otherPieces otherLeft with
  | finished =>
      rcases other.first?_cases with ⟨_, rfl, rfl⟩ | ⟨_, _, _, first, _⟩
      · exact ⟨rfl, rfl⟩
      · cases first
  | unclosed noQuote =>
      rcases other.first?_cases with ⟨_, rfl, rfl⟩ | ⟨_, _, _, first, _⟩
      · exact ⟨rfl, rfl⟩
      · rw [Piece.first?_unclosed noQuote] at first
        cases first
  | piece ends _ ih =>
      rcases other.first?_cases with
        ⟨first, _⟩ | ⟨_, _, _, first, rfl, otherRest⟩
      · rw [Piece.first?_of_endsBefore ends] at first
        cases first
      · rw [Piece.first?_of_endsBefore ends] at first
        cases first
        obtain ⟨rfl, rfl⟩ := ih otherRest
        exact ⟨rfl, rfl⟩

end Segmented

namespace ScanError

private theorem exists_before_eq (error : ScanError) :
    ∃ earlier, error.before = earlier ++ error.indent ∧
      (earlier = [] ∨ earlier.getLast? = some '\n') := by
  have parts := List.takeWhile_append_dropWhile
    (p := (· ≠ '\n')) (l := error.before.reverse)
  have stops := Stops.dropWhile (· ≠ '\n') error.before.reverse
  refine ⟨(error.before.reverse.dropWhile (· ≠ '\n')).reverse, ?_, ?_⟩
  · rw [indent, ← List.reverse_append, parts, List.reverse_reverse]
  · cases found : error.before.reverse.dropWhile (· ≠ '\n') with
    | nil => exact Or.inl rfl
    | cons c others =>
        rw [found] at stops
        have isLineFeed : c = '\n' := by simpa using stops
        exact Or.inr (by simp [isLineFeed])

private theorem lineFeed_not_mem_indent (error : ScanError) :
    '\n' ∉ error.indent := by
  intro member
  have inLine := List.mem_takeWhile_imp (List.mem_reverse.mp member)
  simp at inLine

end ScanError

namespace Token

theorem scan_of_segmented {source : String} {pieces : List Piece}
    {left : List Char} (segmented : Segmented source.toList pieces left) :
    scan source = if left = [] then .ok (pieces.filterMap Piece.token?)
      else .error ⟨pieces.flatMap Piece.text, left⟩ := by
  have before : source.toList.take (source.toList.length - left.length) =
      pieces.flatMap Piece.text := by
    rw [segmented.text_eq, List.length_append, Nat.add_sub_cancel,
      List.take_left]
  rw [scan, segmented.scanChars_eq]
  split
  · rfl
  · rw [Except.mapError, before]

theorem exists_segmented_of_scan {source : String} {tokens : List Token}
    (scanned : scan source = .ok tokens) :
    ∃ pieces, Segmented source.toList pieces [] ∧
      tokens = pieces.filterMap Piece.token? := by
  obtain ⟨pieces, left, segmented⟩ := Segmented.exists_of_text source.toList
  rw [scan_of_segmented segmented] at scanned
  split at scanned
  · next finished =>
      cases scanned
      exact ⟨pieces, finished ▸ segmented, rfl⟩
  · cases scanned

/-- A source has one reading as separators, comments, strings and words.
Scanning succeeds when the reading leaves nothing, with one token for each
string and word; otherwise it reports the quote of the string that is never
closed. -/
theorem scan_reads_maximal_pieces (source : String) :
    ∃ pieces left, Segmented source.toList pieces left ∧
      (∀ otherPieces otherLeft, Segmented source.toList otherPieces otherLeft →
        otherPieces = pieces ∧ otherLeft = left) ∧
      ((∃ tokens, scan source = .ok tokens) ↔ left = []) ∧
      (∀ tokens, scan source = .ok tokens →
        tokens = pieces.filterMap Piece.token?) ∧
      ∀ error, scan source = .error error →
        (∃ body, left = '"' :: body ∧ '"' ∉ body) ∧
        error.line = 1 + (pieces.flatMap Piece.text).count '\n' ∧
        ∃ earlier indent, pieces.flatMap Piece.text = earlier ++ indent ∧
          (earlier = [] ∨ earlier.getLast? = some '\n') ∧ '\n' ∉ indent ∧
          error.column = 1 + indent.length := by
  obtain ⟨pieces, left, segmented⟩ := Segmented.exists_of_text source.toList
  have scanned := scan_of_segmented segmented
  refine ⟨pieces, left, segmented, fun _ _ other => segmented.unique other,
    ?_, ?_, ?_⟩
  · rw [scanned]
    constructor
    · rintro ⟨tokens, succeeded⟩
      by_contra unclosed
      simp [unclosed] at succeeded
    · intro finished
      exact ⟨_, if_pos finished⟩
  · intro tokens succeeded
    rw [scanned] at succeeded
    split at succeeded
    · cases succeeded
      rfl
    · cases succeeded
  · intro error failed
    rw [scanned] at failed
    split at failed
    · cases failed
    · next unclosed =>
        cases failed
        obtain ⟨earlier, before, ends⟩ :=
          ScanError.exists_before_eq ⟨pieces.flatMap Piece.text, left⟩
        refine ⟨segmented.left_eq.resolve_left unclosed, Nat.add_comm _ _,
          earlier, _, before, ends, ScanError.lineFeed_not_mem_indent _,
          Nat.add_comm _ _⟩

end Token

end FuzzyRules
