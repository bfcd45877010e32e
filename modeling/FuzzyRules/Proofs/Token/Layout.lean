import FuzzyRules.Proofs.Token.Segmentation

namespace FuzzyRules

/-! Tokens that are written out under any layout scan as themselves. -/

/-- A separator, or a comment together with the line break that ends it. -/
inductive Filler where
  | separator (c : Char) (separates : isSeparator c = true)
  | comment (body : List Char) (ending : Char)
      (inLine : ∀ c ∈ body, isLineBreak c = false)
      (ends : isLineBreak ending = true)

def Filler.text : Filler → List Char
  | separator c _ => [c]
  | comment body ending _ _ => '#' :: (body ++ [ending])

abbrev Gap := List Filler

def Gap.text (gap : Gap) : List Char :=
  gap.flatMap Filler.text

/-- The gap at index `i` of `between` follows the token at index `i`. -/
structure Layout where
  before : Gap
  between : Nat → Gap
  after : Gap
  apart : ∀ index, between index ≠ []

namespace Layout

def spread (between : Nat → Gap) : List Piece → List Char
  | [] => []
  | [piece] => piece.text
  | piece :: pieces =>
      piece.text ++
        ((between 0).text ++ spread (fun index => between (index + 1)) pieces)

def render (layout : Layout) (pieces : List Piece) : String :=
  String.ofList (layout.before.text ++
    (spread layout.between pieces ++ layout.after.text))

end Layout

private theorem isSeparator_of_isLineBreak {c : Char}
    (lineBreak : isLineBreak c = true) : isSeparator c = true := by
  simp only [isLineBreak, Bool.or_eq_true, decide_eq_true_eq] at lineBreak
  rcases lineBreak with rfl | rfl <;> rfl

private theorem Filler.stops (filler : Filler) (rest : List Char) :
    Stops isWordChar (filler.text ++ rest) := by
  cases filler with
  | separator c separates => exact isWordChar_eq_false_of_isSeparator separates
  | comment body ending inLine ends => rfl

private theorem Gap.stops {gap : Gap} (nonempty : gap ≠ []) (rest : List Char) :
    Stops isWordChar (gap.text ++ rest) := by
  cases gap with
  | nil => exact absurd rfl nonempty
  | cons filler fillers =>
      rw [Gap.text, List.flatMap_cons, List.append_assoc]
      exact filler.stops _

private theorem Gap.stops_end (gap : Gap) : Stops isWordChar gap.text := by
  cases gap with
  | nil => trivial
  | cons filler fillers =>
      simpa using Gap.stops (List.cons_ne_nil filler fillers) []

namespace Token

private theorem scanChars_separator {c : Char} {rest : List Char}
    (separates : isSeparator c = true) :
    scanChars (c :: rest) = scanChars rest :=
  scanChars_congr (afterGap_separator separates)

private theorem scanChars_filler (filler : Filler) (rest : List Char) :
    scanChars (filler.text ++ rest) = scanChars rest := by
  cases filler with
  | separator c separates => exact scanChars_separator separates
  | comment body ending inLine ends =>
      have stops : Stops (fun c => !isLineBreak c) (ending :: rest) := by
        simp [ends]
      calc
        scanChars ('#' :: (body ++ [ending]) ++ rest)
            = scanChars ('#' :: (body ++ ending :: rest)) := by simp
        _ = scanChars (ending :: rest) :=
          scanChars_congr (afterGap_comment inLine stops)
        _ = scanChars rest :=
          scanChars_separator (isSeparator_of_isLineBreak ends)

theorem scanChars_gap (gap : Gap) (rest : List Char) :
    scanChars (gap.text ++ rest) = scanChars rest := by
  induction gap with
  | nil => rfl
  | cons filler fillers ih =>
      rw [Gap.text, List.flatMap_cons, List.append_assoc, scanChars_filler]
      exact ih

/-- The piece reads as the token wherever no word character follows. -/
structure SpelledBy (token : Token) (piece : Piece) : Prop where
  reads : piece.token? = some token
  ends : ∀ rest, Stops isWordChar rest → piece.EndsBefore rest

theorem SpelledBy.scanChars {token : Token} {piece : Piece}
    (spelled : token.SpelledBy piece) {rest : List Char}
    (stops : Stops isWordChar rest) :
    scanChars (piece.text ++ rest) = (scanChars rest).map (token :: ·) := by
  rw [scanChars_piece (spelled.ends rest stops), spelled.reads]
  rfl

theorem scanChars_after (after : Gap) : scanChars after.text = .ok [] := by
  have passed := scanChars_gap after []
  rw [List.append_nil] at passed
  rw [passed]
  exact scanChars_of_stops trivial next?_nil

private theorem scanChars_spread {tokens : List Token} {pieces : List Piece}
    (spelled : List.Forall₂ SpelledBy tokens pieces) (between : Nat → Gap)
    (apart : ∀ index, between index ≠ []) (after : Gap) :
    scanChars (Layout.spread between pieces ++ after.text) = .ok tokens := by
  induction spelled generalizing between with
  | nil => exact scanChars_after after
  | @cons token piece tokens pieces first others ih =>
      cases pieces with
      | nil =>
          cases others
          rw [Layout.spread, first.scanChars after.stops_end, scanChars_after]
          rfl
      | cons next pieces =>
          have rest := ih (fun index => between (index + 1)) fun index =>
            apart (index + 1)
          rw [Layout.spread, List.append_assoc, List.append_assoc,
            first.scanChars (Gap.stops (apart 0) _), scanChars_gap, rest]
          · rfl
          · simp

/-- Pieces that spell tokens are scanned as these tokens, whatever the
layout. -/
theorem scan_render {tokens : List Token} {pieces : List Piece}
    (spelled : List.Forall₂ SpelledBy tokens pieces) (layout : Layout) :
    scan (layout.render pieces) = .ok tokens := by
  have scanned :=
    scanChars_spread spelled layout.between layout.apart layout.after
  rw [scan, Layout.render, String.toList_ofList, scanChars_gap, scanned]
  rfl

def Scannable (token : Token) : Prop :=
  match token.kind with
  | .keyword => token.value ∈ keywords
  | .literal => '"' ∉ token.value.toList
  | .other =>
      token.value.toList ≠ [] ∧
        (∀ c ∈ token.value.toList, isWordChar c = true) ∧
        token.value ∉ keywords ∧ token.value.toList ∉ Word.numbers
  | .empty => False

instance : (token : Token) → Decidable token.Scannable
  | ⟨.keyword, value⟩ => inferInstanceAs (Decidable (value ∈ keywords))
  | ⟨.literal, value⟩ => inferInstanceAs (Decidable ('"' ∉ value.toList))
  | ⟨.other, value⟩ =>
      have : Decidable (∀ c ∈ value.toList, isWordChar c = true) :=
        decidable_of_iff _ List.all_eq_true
      inferInstanceAs (Decidable (_ ∧ _ ∧ _ ∧ _))
  | ⟨.empty, _⟩ => inferInstanceAs (Decidable False)

/-- How a token is written: a literal in quotes, any other token as it is. -/
def piece (token : Token) : Piece :=
  match token.kind with
  | .literal => .string token.value.toList
  | _ => .word token.value.toList

theorem spelledBy_word {chars : List Char} (nonempty : chars ≠ [])
    (all : ∀ c ∈ chars, isWordChar c = true) :
    (Word.token chars).SpelledBy (.word chars) where
  reads := rfl
  ends _ stops := ⟨nonempty, all, stops⟩

theorem spelledBy_string {value : String} (noQuote : '"' ∉ value.toList) :
    SpelledBy ⟨.literal, value⟩ (.string value.toList) where
  reads := by rw [Piece.token?, String.ofList_toList]
  ends _ _ := noQuote

theorem spelledBy_keyword {value : String} (member : value ∈ keywords) :
    (keyword value).SpelledBy (.word value.toList) := by
  have nonempty : ∀ keyword ∈ keywords, keyword.toList ≠ [] := by decide
  have token : Word.token value.toList = keyword value := by
    simp [Word.token, member, keyword]
  rw [← token]
  exact spelledBy_word (nonempty value member)
    (isWordChar_of_mem_keywords member)

private theorem Scannable.spelledBy_piece {token : Token}
    (scannable : token.Scannable) : token.SpelledBy token.piece := by
  obtain ⟨kind, value⟩ := token
  cases kind with
  | keyword => exact spelledBy_keyword scannable
  | literal => exact spelledBy_string scannable
  | other =>
      obtain ⟨nonempty, all, notKeyword, notNumber⟩ := scannable
      have token : Word.token value.toList = ⟨.other, value⟩ := by
        simp [Word.token, notKeyword, notNumber]
      have spelled : (Word.token value.toList).SpelledBy (.word value.toList) :=
        spelledBy_word nonempty all
      rwa [token] at spelled
  | empty => cases scannable

private theorem scannable_of_word {chars : List Char} (nonempty : chars ≠ [])
    (all : ∀ c ∈ chars, isWordChar c = true) :
    (Word.token chars).Scannable := by
  rw [Word.token]
  split
  · next member => exact member
  · split
    · next notKeyword number =>
        have noQuote : '"' ∉ chars :=
          fun member => absurd (all '"' member) (by decide)
        simpa [Scannable] using noQuote
    · next notKeyword notNumber =>
        simp only [Scannable, String.toList_ofList]
        exact ⟨nonempty, all, notKeyword, notNumber⟩

private theorem scannable_of_endsBefore {piece : Piece} {rest : List Char}
    {token : Token} (ends : piece.EndsBefore rest)
    (reads : piece.token? = some token) : token.Scannable := by
  cases piece with
  | separator c => cases reads
  | comment body => cases reads
  | string interior =>
      cases reads
      have noQuote : '"' ∉ interior := ends
      simpa [Scannable] using noQuote
  | word chars =>
      cases reads
      exact scannable_of_word ends.1 ends.2.1

private theorem scannable_of_segmented {text left : List Char}
    {pieces : List Piece} (segmented : Segmented text pieces left) :
    ∀ token ∈ pieces.filterMap Piece.token?, token.Scannable := by
  induction segmented with
  | finished => simp
  | unclosed _ => simp
  | @piece piece pieces rest left ends _ ih =>
      intro token member
      obtain ⟨found, foundMember, reads⟩ := List.mem_filterMap.mp member
      rcases List.mem_cons.mp foundMember with rfl | inOthers
      · exact scannable_of_endsBefore ends reads
      · exact ih token (List.mem_filterMap.mpr ⟨found, inOthers, reads⟩)

theorem scannable_of_scan {source : String} {tokens : List Token}
    (scanned : scan source = .ok tokens) :
    ∀ token ∈ tokens, token.Scannable := by
  obtain ⟨pieces, segmented, rfl⟩ := exists_segmented_of_scan scanned
  exact scannable_of_segmented segmented

theorem scan_render_scannable {tokens : List Token}
    (scannable : ∀ token ∈ tokens, token.Scannable) (layout : Layout) :
    scan (layout.render (tokens.map piece)) = .ok tokens := by
  apply scan_render
  rw [List.forall₂_map_right_iff, List.forall₂_same]
  exact fun token member => (scannable token member).spelledBy_piece

/-- Scanning gives scannable tokens only, and every list of scannable tokens is
given by each of its renderings. So tokens that were scanned from one text are
scanned from all their renderings. -/
theorem scan_image_and_round_trip :
    (∀ source tokens, scan source = .ok tokens →
      ∀ token ∈ tokens, token.Scannable) ∧
    (∀ tokens : List Token, (∀ token ∈ tokens, token.Scannable) →
      ∀ layout : Layout, scan (layout.render (tokens.map piece)) = .ok tokens) ∧
    (∀ source tokens, scan source = .ok tokens →
      ∀ layout : Layout, scan (layout.render (tokens.map piece)) =
        scan source) := by
  refine ⟨fun _ _ => scannable_of_scan, fun _ => scan_render_scannable, ?_⟩
  intro source tokens scanned layout
  rw [scanned]
  exact scan_render_scannable (scannable_of_scan scanned) layout

/-- A comment may hold a quote and a string may hold a hash and a line break. -/
theorem scan_commented_tokens :
    scan "rule#\"end\n\"#\n\"#\"end\nrules " =
      .ok [keyword "rule", ⟨.literal, "#\n"⟩, ⟨.other, "rules"⟩] :=
  scan_image_and_round_trip.2.1 [keyword "rule", ⟨.literal, "#\n"⟩,
    ⟨.other, "rules"⟩] (by decide)
    { before := []
      between := fun _ =>
        [.comment "\"end".toList '\n' (by simp [isLineBreak]) rfl]
      after := [.separator ' ' rfl]
      apart := fun _ => List.cons_ne_nil _ _ }

end Token

end FuzzyRules
