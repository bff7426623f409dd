-- What lies between the tokens of a text. The tokens stand in the lines and columns that they
-- tell, one after the other, and what is left of the text when they are taken out is layout:
-- blanks, newlines, and comments that each go to the end of their line. No other character is
-- skipped, and none is in two tokens.
import Mamuth.Proofs.Lines

namespace Mamuth

open Lexeme (EndsLine first? place segment)

/-! ## Lines and columns -/

namespace Text

theorem head_splitOn (s : List Char) :
    (s.splitOn '\n')[0]? = some (s.takeWhile (· ≠ '\n')) := by
  induction s with
  | nil => rfl
  | cons c cs ih =>
    rw [List.splitOn_cons_eq_if_modifyHead]
    by_cases hc : c = '\n'
    · simp [hc]
    · cases hs : cs.splitOn '\n' with
      | nil => exact absurd hs (List.splitOn_ne_nil _ _)
      | cons row rows =>
        rw [hs] at ih
        simp_all

theorem length_splitOn (s : List Char) : (s.splitOn '\n').length = s.count '\n' + 1 := by
  induction s with
  | nil => rfl
  | cons c cs ih =>
    rw [List.splitOn_cons_eq_if_modifyHead]
    by_cases hc : c = '\n' <;> simp [hc, ih]

/-- The line in which a text goes on after a part of it. -/
theorem getElem?_splitOn_append (before after : List Char) :
    ((before ++ after).splitOn '\n')[before.count '\n']? =
      some (lastLine before ++ after.takeWhile (· ≠ '\n')) := by
  induction before using List.reverseRecOn generalizing after with
  | nil => exact head_splitOn after
  | append_singleton cs c ih =>
    rw [List.append_assoc, List.singleton_append]
    by_cases hc : c = '\n'
    · rw [hc, List.splitOn_append_cons_self, lastLine_newline, List.count_append,
        List.getElem?_append_right (by rw [length_splitOn]; simp), length_splitOn]
      simpa using head_splitOn after
    · have count : (cs ++ [c]).count '\n' = cs.count '\n' := by simp [hc]
      rw [count, ih, lastLine_append (by simpa using Ne.symm hc), List.append_assoc,
        List.takeWhile_cons_of_pos (by simpa using hc)]
      rfl

end Text

/-- The lexeme starts at the character that the position of the token tells: the line is one of
those between the newlines, and the columns are counted in its characters. -/
structure Token.StandsIn (source : String) (t : Token) : Prop where
  line : 1 ≤ t.position.line
  column : 1 ≤ t.position.column
  text : ∃ row, (source.toList.splitOn '\n')[t.position.line - 1]? = some row ∧
    t.lexeme.toList <+: row.drop (t.position.column - 1)
  inLine : '\n' ∉ t.lexeme.toList

theorem Token.standsIn_of_mem {source : String} {t : Token} (h : t ∈ list source) :
    t.StandsIn source := by
  obtain ⟨⟨before, after, hs, position⟩, inLine⟩ := writtenIn_of_mem h
  rw [List.append_assoc] at hs
  have within : t.lexeme.toList <+: (t.lexeme.toList ++ after).takeWhile (· ≠ '\n') := by
    rw [List.takeWhile_append_of_pos fun c hc => by simpa using ne_of_mem_of_not_mem hc inLine]
    exact List.prefix_append _ _
  have row := Text.getElem?_splitOn_append before (t.lexeme.toList ++ after)
  rw [← hs] at row
  refine ⟨?_, ?_, ⟨_, by rw [position]; exact row, ?_⟩, inLine⟩
  · rw [position]
    exact Nat.le_add_left 1 _
  · rw [position]
    exact Nat.le_add_left 1 _
  · rw [position, Nat.add_sub_cancel, List.drop_left]
    exact within

/-! ## Layout -/

/-- What can stand around tokens, with this rest of the text after it: blanks, newlines, and
comments that go to the end of their line. -/
inductive Gap (rest : List Char) : List Char → Prop
  | nil : Gap rest []
  | blank {c : Char} {g : List Char} (space : c ∈ [' ', '\t', '\r', '\n']) (more : Gap rest g) :
    Gap rest (c :: g)
  | comment {w g : List Char} (inLine : '\n' ∉ w) (ends : EndsLine (g ++ rest))
    (more : Gap rest g) : Gap rest (Lexeme.commentMark ++ w ++ g)

/-- From this position on, the text is the lexemes of the tokens, each at the position of its
token, with gaps before, between and after them. -/
inductive Tiles : Position → List Char → List Token → Prop
  | last {p : Position} {g : List Char} (gap : Gap [] g) : Tiles p g []
  | token {p : Position} {g rest : List Char} {t : Token} {ts : List Token}
    (gap : Gap (t.lexeme.toList ++ rest) g) (position : t.position = p.after g)
    (more : Tiles (t.position.after t.lexeme.toList) rest ts) :
    Tiles p (g ++ (t.lexeme.toList ++ rest)) (t :: ts)

/-- Layout makes the next gap longer. -/
theorem Tiles.prepend {p : Position} {v s : List Char} {ts : List Token}
    (h : Tiles (p.after v) s ts)
    (longer : ∀ g rest, s = g ++ rest → Gap rest g → Gap rest (v ++ g)) :
    Tiles p (v ++ s) ts := by
  cases h with
  | last gap => exact .last (longer s [] (by simp) gap)
  | token gap position more =>
    rw [← List.append_assoc]
    exact .token (longer _ _ rfl gap) (by rw [position, Position.after_append]) more

namespace Lexeme

/-- Blanks are layout. -/
theorem gap_append {v g rest : List Char} (hv : ∀ c ∈ v, c ∈ [' ', '\t', '\r', '\n'])
    (h : Gap rest g) : Gap rest (v ++ g) := by
  induction v with
  | nil => exact h
  | cons c v ih =>
    rw [List.forall_mem_cons] at hv
    exact .blank hv.1 (ih hv.2)

/-- A comment has its mark, and nothing of its line is left after it. -/
theorem comment_chars {l : Lexeme} {rest : List Char} (h : first? (l.chars ++ rest) = some l)
    (hf : l.form = .comment) :
    ∃ w, l.chars = commentMark ++ w ∧ '\n' ∉ w ∧ EndsLine rest := by
  have longest := longest?_of_first? h
  rw [hf] at longest
  simp only [Form.longest?] at longest
  split at longest
  · rename_i marked
    obtain ⟨v, hv⟩ := List.isPrefixOf_iff_prefix.mp marked
    have whole : line (l.chars ++ rest) = l.chars := Option.some.inj longest
    have inLine : ∀ c ∈ l.chars, decide (c ≠ '\n') := by
      rw [← whole]
      exact List.all_eq_true.mp List.all_takeWhile
    have chars : commentMark ++ line v = l.chars := by
      have mark : ∀ c ∈ commentMark, decide (c ≠ '\n') := List.all_eq_true.mp (by decide)
      rw [← whole, ← hv, line, line, List.takeWhile_append_of_pos mark]
    refine ⟨line v, chars.symm, fun hn => ?_, fun c hc => ?_⟩
    · simpa using inLine '\n' (chars ▸ List.mem_append_right _ hn)
    · obtain ⟨rest, rfl⟩ : ∃ tail, rest = c :: tail := ⟨_, List.eq_cons_of_mem_head? hc⟩
      rw [line, List.takeWhile_append_of_pos inLine] at whole
      by_contra hn
      simp [hn] at whole
  · cases longest

/-- A lexeme that is no token is layout. -/
theorem gap_of_kind? {l : Lexeme} {rest : List Char} (h : first? (l.chars ++ rest) = some l)
    (hk : l.kind? = none) (g after : List Char) (hr : rest = g ++ after) (gap : Gap after g) :
    Gap after (l.chars ++ g) := by
  cases hf : l.form with
  | comment =>
    obtain ⟨w, hw, inLine, ends⟩ := comment_chars h hf
    rw [hw]
    exact .comment inLine (hr ▸ ends) gap
  | newline =>
    rcases newline_or_inLine h with ⟨-, chars⟩ | ⟨other, -⟩
    · rw [chars]
      exact .blank (by decide) gap
    · exact absurd hf other
  | blank =>
    refine gap_append (fun c hc => ?_) gap
    have blank : isBlank c := by
      simpa [hf, Form.pattern, Pattern.oneOrMore, Pattern.admits, among_blanks]
        using admits_of_mem h hc
    have : c = ' ' ∨ c = '\t' ∨ c = '\r' := by simpa [isBlank, or_assoc] using blank
    rcases this with rfl | rfl | rfl <;> decide
  | malformed | stray | text | punctuation | float | integer | word => simp [kind?, hf] at hk

/-- The tokens of lexemes tile the text of these lexemes. -/
theorem tiles_place (s : List Char) (p : Position) :
    Tiles p s ((place p (segment s)).filterMap Token.ofLexeme?) := by
  induction s using segment_induction generalizing p with
  | nil => exact .last .nil
  | cons l rest first ih =>
    have more := ih (p.after l.chars)
    rw [place, List.filterMap_cons]
    cases hk : l.kind? with
    | none =>
      rw [Token.ofLexeme?, hk]
      exact more.prepend (gap_of_kind? first hk)
    | some kind =>
      have lexeme : (String.ofList l.chars).toList = l.chars := String.toList_ofList
      have token := Tiles.token (t := ⟨kind, String.ofList l.chars, p⟩) .nil rfl (lexeme ▸ more)
      rw [Token.ofLexeme?, hk]
      rwa [lexeme] at token

end Lexeme

/-! ## What a scan gives -/

/-- The tokens of a scan stand in their places, in the order of the text, and around them is
layout only. What makes a scan fail stands in its places too, in the order of the text. -/
theorem scan_tiles (source : String) :
    match scan source with
    | .ok tokens =>
      (tokens.Pairwise fun a b => a.position.Before b.position) ∧
        (∀ t ∈ tokens, t.StandsIn source) ∧ Tiles .start source.toList tokens
    | .error pieces =>
      (pieces.Pairwise fun a b => a.position.Before b.position) ∧
        ∀ t ∈ pieces, t.StandsIn source := by
  rw [scan_eq_list]
  by_cases clean : (Token.list source).filter (·.kind = .unrecognized) = []
  · rw [if_pos clean]
    exact ⟨Token.pairwise_list source, fun t ht => Token.standsIn_of_mem ht,
      Lexeme.tiles_place source.toList .start⟩
  · rw [if_neg clean]
    exact ⟨(Token.pairwise_list source).filter _,
      fun t ht => Token.standsIn_of_mem (List.mem_of_mem_filter ht)⟩

end Mamuth
