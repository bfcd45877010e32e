import FuzzyRules.Proofs.Token.Segmentation

namespace FuzzyRules

/-! No word and no comment goes on over a line feed, so the text behind one is
read as if it stood alone. -/

theorem Piece.EndsBefore.append_lineFeed {piece : Piece} {rest : List Char}
    (ends : piece.EndsBefore rest) (second : List Char) :
    piece.EndsBefore (rest ++ '\n' :: second) := by
  cases piece with
  | separator c => exact ends
  | comment body =>
      obtain ⟨inLine, stops⟩ := ends
      exact ⟨inLine, stops.append rfl⟩
  | string interior => exact ends
  | word chars =>
      obtain ⟨nonempty, all, stops⟩ := ends
      exact ⟨nonempty, all, stops.append rfl⟩

/-- Nothing may be left of the first text: a string that it opens would go on
behind the line feed. -/
theorem Segmented.append_lineFeed {first second left remaining : List Char}
    {pieces others : List Piece} (segmented : Segmented first pieces left)
    (finished : left = []) (behind : Segmented second others remaining) :
    Segmented (first ++ '\n' :: second) (pieces ++ .separator '\n' :: others)
      remaining := by
  induction segmented with
  | finished =>
      have separates : (Piece.separator '\n').EndsBefore second := rfl
      exact .piece separates behind
  | unclosed _ => cases finished
  | piece ends _ ih =>
      rw [List.append_assoc]
      exact .piece (ends.append_lineFeed second) (ih finished)

namespace ScanError

/-- The same place with a text and a line feed put in front. -/
def below (first : List Char) (error : ScanError) : ScanError :=
  ⟨first ++ '\n' :: error.before, error.after⟩

private theorem line_below (first : List Char) (error : ScanError) :
    (error.below first).line = error.line + 1 + first.count '\n' := by
  have counted : (first ++ '\n' :: error.before).count '\n' =
      first.count '\n' + (error.before.count '\n' + 1) := by
    rw [List.count_append, List.count_cons_self]
  change (first ++ '\n' :: error.before).count '\n' + 1 =
    error.before.count '\n' + 1 + 1 + _
  omega

/-- What stands in front of a place on its line is not moved to another line. -/
theorem indent_below (first : List Char) (error : ScanError) :
    (error.below first).indent = error.indent := by
  apply congrArg List.reverse
  have reversed : (error.below first).before.reverse =
      error.before.reverse ++ '\n' :: first.reverse := by
    simp [below]
  -- If all in front of the place is on its line, the line feed that was put in
  -- front ends the line.
  rw [reversed, List.takeWhile_append]
  split
  · next whole =>
      have same : error.before.reverse.takeWhile (· ≠ '\n') =
          error.before.reverse :=
        (List.takeWhile_prefix _).eq_of_length whole
      rw [same]
      exact List.append_nil _
  · rfl

private theorem column_below (first : List Char) (error : ScanError) :
    (error.below first).column = error.column :=
  congrArg (fun indent => indent.length + 1) (error.indent_below first)

end ScanError

namespace Token

private theorem scan_lineFeed {first : String} {tokens : List Token}
    (scanned : scan first = .ok tokens) (second : String) :
    scan (first ++ "\n" ++ second) =
      ((scan second).map (tokens ++ ·)).mapError
        (ScanError.below first.toList) := by
  obtain ⟨pieces, segmented, rfl⟩ := exists_segmented_of_scan scanned
  obtain ⟨others, left, behind⟩ := Segmented.exists_of_text second.toList
  have chars : (first ++ "\n" ++ second).toList =
      first.toList ++ '\n' :: second.toList := by
    simp
  have joined := segmented.append_lineFeed rfl behind
  rw [← chars] at joined
  rw [scan_of_segmented joined, scan_of_segmented behind]
  split
  · rw [List.filterMap_append]
    rfl
  · have before : first.toList = pieces.flatMap Piece.text := by
      simpa using segmented.text_eq
    rw [List.flatMap_append, ← before]
    rfl

/-- If a text is scanned, then with a line feed and a second text behind it, it
is scanned exactly if the second text is, into the tokens of both in order. A
string that the second text leaves open is reported in its column and as many
lines further down as the first text takes. -/
theorem scan_joins_lines {first : String} {tokens : List Token}
    (scanned : scan first = .ok tokens) (second : String) :
    ((∃ all, scan (first ++ "\n" ++ second) = .ok all) ↔
      ∃ others, scan second = .ok others) ∧
    (∀ others, scan second = .ok others →
      scan (first ++ "\n" ++ second) = .ok (tokens ++ others)) ∧
    ∀ error, scan second = .error error →
      ∃ moved, scan (first ++ "\n" ++ second) = .error moved ∧
      moved.line = error.line + 1 + first.toList.count '\n' ∧
        moved.column = error.column := by
  have joined := scan_lineFeed scanned second
  cases outcome : scan second with
  | error error =>
      rw [outcome] at joined
      refine ⟨?_, fun others found => (by cases found), ?_⟩
      · rw [joined]
        constructor
        · rintro ⟨all, found⟩
          cases found
        · rintro ⟨others, found⟩
          cases found
      · intro found isError
        cases isError
        exact ⟨error.below first.toList, joined, error.line_below _,
          error.column_below _⟩
  | ok others =>
      rw [outcome] at joined
      refine ⟨⟨fun _ => ⟨others, rfl⟩, fun _ => ⟨tokens ++ others, joined⟩⟩, ?_,
        ?_⟩
      · intro found isOthers
        cases isOthers
        exact joined
      · intro error found
        cases found

/-- The first text ends in a comment that holds a quote, behind a number that
breaks off. -/
theorem scan_joins_lines_openComment :
    scan ("1\n2e#\"" ++ "\n" ++ "5\"#\"") =
      .ok [⟨.literal, "1"⟩, ⟨.other, "2e"⟩, ⟨.literal, "5"⟩, ⟨.literal, "#"⟩] ∧
    ∃ error, scan ("1\n2e#\"" ++ "\n" ++ "a\n \"b") = .error error ∧
      error.line = 4 ∧ error.column = 2 := by
  have scanned : scan "1\n2e#\"" = .ok [⟨.literal, "1"⟩, ⟨.other, "2e"⟩] := by
    decide +kernel
  have closed : scan "5\"#\"" = .ok [⟨.literal, "5"⟩, ⟨.literal, "#"⟩] := by
    decide +kernel
  have unclosed : scan "a\n \"b" = .error ⟨"a\n ".toList, "\"b".toList⟩ := by
    decide +kernel
  exact ⟨(scan_joins_lines scanned "5\"#\"").2.1 _ closed,
    (scan_joins_lines scanned "a\n \"b").2.2 _ unclosed⟩

end Token

end FuzzyRules
