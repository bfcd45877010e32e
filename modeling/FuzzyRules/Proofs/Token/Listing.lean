import FuzzyRules.CommandLine.Report
import FuzzyRules.Proofs.Text.Quoted

namespace FuzzyRules

namespace Token

theorem Kind.text_injective : Function.Injective Kind.text := by
  intro first second same
  cases first <;> cases second <;> simp_all [Kind.text]

private theorem Kind.char_of_mem_text {kind : Kind} :
    ∀ c ∈ kind.text.toList, decide (c ≠ ' ' ∧ c ≠ '\n') = true := by
  cases kind <;> simp [Kind.text]

private theorem toList_text (token : Token) :
    token.text.toList =
      token.kind.text.toList ++ ' ' :: (Text.quote token.value).toList := by
  simp [text]

/-- The kind ends at the first blank and the quoted value is all that
follows. -/
theorem text_injective : Function.Injective text := by
  intro first second same
  have chars := congrArg String.toList same
  rw [toList_text, toList_text] at chars
  have blank : ∀ rest : List Char,
      Stops (fun c => decide (c ≠ ' ' ∧ c ≠ '\n')) (' ' :: rest) :=
    fun _ => rfl
  obtain ⟨kinds, values⟩ :=
    (blank _).run_unique Kind.char_of_mem_text (blank _)
      Kind.char_of_mem_text chars
  have sameKind : first.kind = second.kind :=
    Kind.text_injective (String.toList_injective kinds)
  have sameValue : first.value = second.value :=
    Text.quote_injective
      (String.toList_injective (List.tail_eq_of_cons_eq values))
  obtain ⟨kind, value⟩ := first
  cases sameKind
  cases sameValue
  rfl

private theorem lineFeed_not_mem_text (token : Token) :
    '\n' ∉ token.text.toList := by
  have kind : '\n' ∉ token.kind.text.toList := by
    intro member
    exact absurd (Kind.char_of_mem_text _ member) (by decide)
  rw [toList_text, List.mem_append, List.mem_cons, not_or, not_or]
  exact ⟨kind, by decide, Text.lineFeed_not_mem_quote token.value⟩

theorem linesOf_listing (tokens : List Token) :
    linesOf (listing tokens) = tokens.map text ++ [""] := by
  have unbroken : ∀ line ∈ tokens.map text, '\n' ∉ line.toList :=
    List.forall_mem_map.mpr fun token _ => token.lineFeed_not_mem_text
  have lines := linesOf_join unbroken
  rw [List.map_map] at lines
  exact lines

theorem listing_injective : Function.Injective listing := by
  intro first second same
  have lines := congrArg linesOf same
  rw [linesOf_listing, linesOf_listing] at lines
  exact List.map_injective_iff.mpr text_injective
    (List.append_cancel_right lines)

end Token

namespace CommandLine.Answer

/-- Two lists of tokens have the same listing only if they are the same. A
listing has one line for each token, with its kind, a blank and its quoted
value, and nothing behind the last line. -/
theorem listing_lossless :
    (∀ first second : List Token,
      (ofTokens true first).result = (ofTokens true second).result ↔
        first = second) ∧
    ∀ tokens : List Token, ∃ output,
      (ofTokens true tokens).result = .ok output ∧
      linesOf output =
        (tokens.map fun token => token.kind.text ++ " " ++
          Text.quote token.value) ++ [""] := by
  constructor
  · intro first second
    refine ⟨fun same => Token.listing_injective (Except.ok.inj same), ?_⟩
    rintro rfl
    rfl
  · intro tokens
    exact ⟨Token.listing tokens, rfl, Token.linesOf_listing tokens⟩

/-- A value that reads like the end of its line and another line, and one that
reads like an escape. -/
theorem listing_lossless_lookalikes :
    (ofTokens true [⟨.literal, "a\"\nother \"b"⟩]).result ≠
        (ofTokens true [⟨.literal, "a"⟩, ⟨.other, "b"⟩]).result ∧
      (ofTokens true [⟨.literal, "\\u\x7b7f\x7d"⟩]).result ≠
        (ofTokens true [⟨.literal, "\x7f"⟩]).result ∧
      ∃ output, (ofTokens true [⟨.literal, "a\"\nother \"b"⟩]).result =
        .ok output ∧
        linesOf output = ["literal \"a\\\"\\nother \\\"b\"", ""] := by
  obtain ⟨lossless, lines⟩ := listing_lossless
  refine ⟨(lossless _ _).not.mpr (by decide),
    (lossless _ _).not.mpr (by decide), ?_⟩
  obtain ⟨output, isOutput, isLines⟩ := lines [⟨.literal, "a\"\nother \"b"⟩]
  exact ⟨output, isOutput, isLines.trans (by decide +kernel)⟩

end CommandLine.Answer

end FuzzyRules
