-- The ends of lines. Blanks at the end of a line, and a comment behind them, change nothing: no
-- lexeme of the line goes on into them, unless it is layout itself, and they give no token. So the
-- tokens of a text are the same, at the same places, and so is what makes a scan fail.
import Mamuth.Proofs.Gaps
import Mamuth.Proofs.Respacing

namespace Mamuth

/-- What can be added at the end of a line: spaces, tabs and carriage returns, and behind one of
these at least a comment in which there is no text mark. -/
inductive Trailer : List Char → Prop
  | blanks {b : List Char} (layout : ∀ c ∈ b, c ∈ [' ', '\t', '\r']) : Trailer b
  | comment {b v : List Char} (layout : ∀ c ∈ b, c ∈ [' ', '\t', '\r']) (behind : b ≠ [])
    (inLine : '\n' ∉ v) (unmarked : 'ツ' ∉ v) : Trailer (b ++ ("muchoTexto:".toList ++ v))

/-- The text with more at the end of each of its lines. -/
def withTrailers (trailers : Nat → List Char) (source : String) : String :=
  String.ofList (['\n'].intercalate
    ((source.toList.splitOn '\n').mapIdx fun i row => row ++ trailers i))

/-- The text with a carriage return before each newline. -/
def withReturns (source : String) : String :=
  String.ofList (source.toList.flatMap fun c => if c = '\n' then ['\r', '\n'] else [c])

open Lexeme

/-! ## What a trailer holds -/

namespace Trailer

variable {w : List Char}

theorem isBlank_iff {c : Char} : isBlank c ↔ c ∈ [' ', '\t', '\r'] := by
  simp [isBlank, or_assoc]

/-- A trailer starts with a blank. -/
theorem layout_of_head? (h : Trailer w) : ∀ c ∈ w.head?, c ∈ [' ', '\t', '\r', '\n'] := by
  have wider {c : Char} (hc : c ∈ [' ', '\t', '\r']) : c ∈ [' ', '\t', '\r', '\n'] :=
    List.mem_append_left ['\n'] hc
  intro c hc
  cases h with
  | blanks layout => exact wider (layout c (List.mem_of_mem_head? hc))
  | comment layout behind =>
    rw [List.head?_append_of_ne_nil _ behind] at hc
    exact wider (layout c (List.mem_of_mem_head? hc))

/-- There is no newline and no text mark in a trailer. -/
theorem not_mem (h : Trailer w) {c : Char} (hc : c ∈ ['\n', textMark]) : c ∉ w := by
  have blanks {b : List Char} (layout : ∀ d ∈ b, d ∈ [' ', '\t', '\r']) : c ∉ b := by
    have other : ∀ d ∈ ['\n', textMark], d ∉ [' ', '\t', '\r'] := by simp [textMark]
    exact fun mem => other c hc (layout c mem)
  cases h with
  | blanks layout => exact blanks layout
  | @comment b v layout _ inLine unmarked =>
    have mark : ∀ d ∈ ['\n', textMark], d ∉ "muchoTexto:".toList := by simp [textMark]
    have text : c ∉ v := by
      simp only [List.mem_cons, List.not_mem_nil, or_false] at hc
      rcases hc with rfl | rfl
      · exact inLine
      · exact unmarked
    simp only [List.mem_append, not_or]
    exact ⟨blanks layout, mark c hc, text⟩

/-- There can be more blanks in front. -/
theorem prepend (h : Trailer w) {v : List Char} (hv : ∀ c ∈ v, c ∈ [' ', '\t', '\r']) :
    Trailer (v ++ w) := by
  have both {b : List Char} (layout : ∀ c ∈ b, c ∈ [' ', '\t', '\r']) :
      ∀ c ∈ v ++ b, c ∈ [' ', '\t', '\r'] := fun c hc =>
    (List.mem_append.mp hc).elim (hv c) (layout c)
  cases h with
  | blanks layout => exact .blanks (both layout)
  | comment layout behind inLine unmarked =>
    rw [← List.append_assoc]
    exact .comment (both layout) (List.append_ne_nil_of_right_ne_nil v behind) inLine unmarked

end Trailer

/-! ## Lexemes before a trailer -/

namespace Lexeme

/-- The pattern of blanks spells the nonempty runs of blanks. -/
theorem spells_blank {w : List Char} :
    Form.blank.pattern.Spells w ↔ w ≠ [] ∧ ∀ c ∈ w, c ∈ [' ', '\t', '\r'] := by
  simp only [Form.pattern, among_blanks, Pattern.spells_oneOrMore, Trailer.isBlank_iff]

/-- Only comments and blanks go on into a trailer. -/
theorem begins_of_trailer {form : Form} {s v w : List Char} (hs : s ≠ []) (trailer : Trailer w)
    (comment : form ≠ .comment) (blank : form ≠ .blank) (h : v <+: s ++ w)
    (spells : form.pattern.Spells v) : v <+: s := by
  have single (length : v.length = 1) : v <+: s := by
    refine List.prefix_of_prefix_length_le h (List.prefix_append s w) ?_
    rw [length]
    exact List.length_pos_iff.mpr hs
  cases form with
  | comment => exact absurd rfl comment
  | blank => exact absurd rfl blank
  | malformed | punctuation | float | integer | word =>
    exact begins_of_isTight rfl trailer.layout_of_head? h spells
  | text =>
    obtain ⟨-, last, inLine⟩ := marks_of_spells spells
    refine List.prefix_of_prefix_length_le h (List.prefix_append s w) ?_
    by_contra longer
    have mark := mark_of_longer h (Nat.lt_of_not_le longer) last inLine
    exact trailer.not_mem (by simp) ((List.takeWhile_prefix _).subset mark)
  | newline => exact single (by rw [Pattern.spells_exactly.mp spells]; rfl)
  | stray =>
    obtain ⟨c, -, rfl⟩ := Pattern.spells_one.mp spells
    exact single rfl

/-- Where a run of blanks begins, the first character is a run of blanks by itself. -/
theorem starts_blank {s v w : List Char} (hs : s ≠ []) (h : v <+: s ++ w)
    (spells : Form.blank.pattern.Spells v) : ∃ c, [c] <+: s ∧ Form.blank.pattern.Spells [c] := by
  obtain ⟨hn, blanks⟩ := spells_blank.mp spells
  obtain ⟨c, v, rfl⟩ := List.exists_cons_of_ne_nil hn
  obtain ⟨d, s, rfl⟩ := List.exists_cons_of_ne_nil hs
  rw [List.cons_append, List.cons_prefix_cons] at h
  refine ⟨c, h.1 ▸ List.prefix_append [c] s, spells_blank.mpr ⟨by simp, fun e he => ?_⟩⟩
  exact blanks e (List.mem_singleton.mp he ▸ List.mem_cons_self)

/-- A lexeme is the same before a trailer, unless it is a comment or the last blanks of the line. -/
theorem first?_append_trailer {l : Lexeme} {rest w : List Char}
    (first : first? (l.chars ++ rest) = some l) (comment : l.form ≠ .comment)
    (blank : l.form = .blank → rest ≠ []) (trailer : Trailer w) :
    first? (l.chars ++ rest ++ w) = some l := by
  have hne : l.chars ++ rest ≠ [] :=
    List.append_ne_nil_of_left_ne_nil (begins_of_first? first).2 rest
  obtain ⟨before, after, order, earlier, longest⟩ := preferred_iff.mpr first
  refine preferred_iff.mp ⟨before, after, order, fun tried ht v hv spells => ?_,
    longest.begins.trans (List.prefix_append _ w), longest.spells, fun v hv spells => ?_⟩
  · by_cases ofComment : tried = .comment
    · subst ofComment
      have mark := (begins_commentMark spells).trans hv
      exact earlier .comment ht commentMark
        (begins_commentMark_of_gap trailer.layout_of_head? mark) spells_commentMark
    by_cases ofBlanks : tried = .blank
    · subst ofBlanks
      obtain ⟨c, here, blank⟩ := starts_blank hne hv spells
      exact earlier .blank ht [c] here blank
    exact earlier tried ht v (begins_of_trailer hne trailer ofComment ofBlanks hv spells) spells
  · by_cases ofBlanks : l.form = .blank
    · rcases List.prefix_or_prefix_of_prefix hv (List.prefix_append (l.chars ++ rest) w) with
        within | beyond
      · exact longest.longest v within spells
      · -- Then all that is left of the line would be blanks, and in this lexeme.
        rw [ofBlanks] at spells
        have whole := longest.longest (l.chars ++ rest) List.prefix_rfl (ofBlanks ▸
          spells_blank.mpr ⟨hne, fun c hc => (spells_blank.mp spells).2 c (beyond.subset hc)⟩)
        rw [List.length_append] at whole
        have := List.length_pos_iff.mpr (blank ofBlanks)
        omega
    · exact longest.longest v (begins_of_trailer hne trailer comment ofBlanks hv spells) spells

/-! ## No tokens in a trailer -/

/-- The tokens of a text that starts at the given position. -/
def tokensFrom (p : Position) (s : List Char) : List Token :=
  (place p (segment s)).filterMap Token.ofLexeme?

theorem tokensFrom_of_first? {l : Lexeme} {rest : List Char}
    (first : first? (l.chars ++ rest) = some l) (p : Position) :
    tokensFrom p (l.chars ++ rest) =
      (Token.ofLexeme? (l, p)).toList ++ tokensFrom (p.after l.chars) rest := by
  rw [tokensFrom, segment_of_first? first, List.drop_left, place, List.filterMap_cons]
  cases Token.ofLexeme? (l, p) <;> rfl

theorem tokensFrom_blanks {b r : List Char} (layout : ∀ c ∈ b, c ∈ [' ', '\t', '\r'])
    (stops : Stops isBlank r) (p : Position) :
    tokensFrom p (b ++ r) = tokensFrom (p.after b) r := by
  cases b with
  | nil => rfl
  | cons c b =>
    have blank : (c :: b).all isBlank :=
      List.all_eq_true.mpr fun d hd => Trailer.isBlank_iff.mpr (layout d hd)
    have first : first? (c :: b ++ r) = some ⟨.blank, c :: b⟩ := by
      rw [List.all_cons, Bool.and_eq_true] at blank
      rw [List.cons_append, first?_blank blank.1, takeWhile_append blank.2 stops]
    exact tokensFrom_of_first? (l := ⟨.blank, c :: b⟩) first p

theorem tokensFrom_comment {v : List Char} (inLine : '\n' ∉ v) (p : Position) :
    tokensFrom p (commentMark ++ v) = [] := by
  have whole : Form.comment.longest? (commentMark ++ v) = some (commentMark ++ v) := by
    have row : (commentMark ++ v).all (· ≠ '\n') := by
      have mark : commentMark.all (· ≠ '\n') := by decide
      rw [List.all_append, mark, Bool.true_and, List.all_eq_true]
      exact fun c hc => decide_eq_true fun he => inLine (he ▸ hc)
    have line : line (commentMark ++ v ++ []) = commentMark ++ v :=
      takeWhile_append row (by simp [Stops])
    rw [List.append_nil] at line
    rw [Form.longest?, if_pos (List.isPrefixOf_iff_prefix.mpr (List.prefix_append _ v)), line]
  let comment : Lexeme := ⟨.comment, commentMark ++ v⟩
  have first : first? (comment.chars ++ []) = some comment := by
    rw [List.append_nil]
    exact first?_of [.malformed] _ rfl (List.forall_mem_singleton.mpr rfl) whole
  have alone := tokensFrom_of_first? first p
  rwa [List.append_nil] at alone

theorem tokensFrom_trailer {w : List Char} (trailer : Trailer w) (p : Position) :
    tokensFrom p w = [] := by
  cases trailer with
  | @blanks b layout =>
    have := tokensFrom_blanks layout (r := []) (by simp [Stops]) p
    rwa [List.append_nil] at this
  | comment layout behind inLine unmarked =>
    rw [tokensFrom_blanks layout (by simp [Stops, isBlank])]
    exact tokensFrom_comment inLine _

/-- A line has the same tokens with a trailer at its end. -/
theorem tokensFrom_append_trailer {s w : List Char} (trailer : Trailer w) (inLine : '\n' ∉ s)
    (p : Position) : tokensFrom p (s ++ w) = tokensFrom p s := by
  induction s using segment_induction generalizing p with
  | nil => exact tokensFrom_trailer trailer p
  | cons l rest first ih =>
    have own : '\n' ∉ l.chars := inLine ∘ List.mem_append_left rest
    have others : '\n' ∉ rest := inLine ∘ List.mem_append_right l.chars
    by_cases comment : l.form = .comment
    · -- It goes to the end of the line, and so over the trailer.
      obtain ⟨u, chars, row, ends⟩ := comment_chars first comment
      obtain rfl : rest = [] := List.head?_eq_none_iff.mp (Option.eq_none_iff_forall_not_mem.mpr
        fun c hc => others (ends c hc ▸ List.mem_of_mem_head? hc))
      have longer : '\n' ∉ u ++ w := by
        simpa [row] using trailer.not_mem (by simp)
      rw [List.append_nil, chars, tokensFrom_comment row, List.append_assoc,
        tokensFrom_comment longer]
    by_cases last : l.form = .blank ∧ rest = []
    · obtain ⟨blank, rfl⟩ := last
      have blanks := (spells_blank.mp (blank ▸ spells_of_first? first)).2
      rw [List.append_nil, tokensFrom_trailer (.blanks blanks),
        tokensFrom_trailer (trailer.prepend blanks)]
    have same := first?_append_trailer first comment (by tauto) trailer
    rw [List.append_assoc] at same ⊢
    rw [tokensFrom_of_first? same, tokensFrom_of_first? first, ih others]

end Lexeme

/-! ## Lines -/

theorem Text.newline_not_mem_row {s row : List Char} (h : row ∈ s.splitOn '\n') : '\n' ∉ row := by
  induction s generalizing row with
  | nil => simp_all
  | cons c s ih =>
    obtain ⟨first, rows, hs⟩ := List.exists_cons_of_ne_nil (List.splitOn_ne_nil '\n' s)
    simp only [hs] at ih
    rw [List.splitOn_cons_eq_if_modifyHead, hs] at h
    by_cases hc : c = '\n'
    · rw [if_pos (beq_iff_eq.mpr hc), List.mem_cons] at h
      rcases h with rfl | h
      · simp
      · exact ih h
    · rw [if_neg (by simpa using hc), List.modifyHead_cons, List.mem_cons] at h
      rcases h with rfl | h
      · simpa [Ne.symm hc] using ih List.mem_cons_self
      · exact ih (List.mem_cons_of_mem first h)

theorem Token.list_ofList (s : List Char) :
    list (String.ofList s) = Lexeme.tokensFrom .start s := by
  rw [list, String.toList_ofList, tokensFrom]

theorem Token.list_ofList_newline (a b : List Char) : list (String.ofList (a ++ ['\n'] ++ b)) =
    list (String.ofList a) ++ (list (String.ofList b)).map (down (lineCount (String.ofList a))) := by
  have text : String.ofList (a ++ ['\n'] ++ b) = String.ofList a ++ "\n" ++ String.ofList b :=
    String.toList_inj.mp (by simp)
  rw [text, list_append_newline]

/-- The tokens of lines are the same with a trailer at the end of each line. -/
theorem Token.list_rows {rows : List (List Char)} (inLine : ∀ row ∈ rows, '\n' ∉ row)
    {trailers : Nat → List Char} (h : ∀ i, Trailer (trailers i)) :
    list (String.ofList (['\n'].intercalate (rows.mapIdx fun i row => row ++ trailers i))) =
      list (String.ofList (['\n'].intercalate rows)) := by
  induction rows generalizing trailers with
  | nil => rfl
  | cons row rows ih =>
    rw [List.forall_mem_cons] at inLine
    have here : list (String.ofList (row ++ trailers 0)) = list (String.ofList row) := by
      rw [list_ofList, list_ofList, tokensFrom_append_trailer (h 0) inLine.1]
    rw [List.mapIdx_cons]
    by_cases last : rows = []
    · subst last
      simpa using here
    · have count : lineCount (String.ofList (row ++ trailers 0)) = lineCount (String.ofList row) := by
        have none := List.count_eq_zero.mpr ((h 0).not_mem (c := '\n') (by simp))
        simp [lineCount, none]
      rw [List.intercalate_cons_of_ne_nil (by simpa using last),
        List.intercalate_cons_of_ne_nil last, list_ofList_newline, list_ofList_newline, here, count,
        ih inLine.2 fun i => h (i + 1)]

/-! ## Carriage returns -/

/-- A carriage return before each newline is a trailer of each line but the last. -/
theorem flatMap_returns {rows : List (List Char)} (inLine : ∀ row ∈ rows, '\n' ∉ row) :
    ((['\n'].intercalate rows).flatMap fun c => if c = '\n' then ['\r', '\n'] else [c]) =
      ['\n'].intercalate
        (rows.mapIdx fun i row => row ++ if i + 1 < rows.length then ['\r'] else []) := by
  have same {row : List Char} (h : '\n' ∉ row) :
      (row.flatMap fun c => if c = '\n' then ['\r', '\n'] else [c]) = row :=
    calc row.flatMap (fun c => if c = '\n' then ['\r', '\n'] else [c])
      _ = row.flatMap ([·]) := List.flatMap_congr fun c hc => if_neg (ne_of_mem_of_not_mem hc h)
      _ = row := List.flatMap_singleton' row
  induction rows with
  | nil => rfl
  | cons row rows ih =>
    rw [List.forall_mem_cons] at inLine
    rw [List.mapIdx_cons]
    by_cases last : rows = []
    · subst last
      simpa using same inLine.1
    · rw [List.intercalate_cons_of_ne_nil last,
        List.intercalate_cons_of_ne_nil (by simpa using last), List.flatMap_append,
        List.flatMap_append, same inLine.1, ih inLine.2]
      simp [List.length_pos_iff.mpr last]

/-- A text is scanned alike with blanks, or blanks and comments, at the ends of its lines, and with
carriage returns before its newlines. -/
theorem scan_withTrailers (source : String) :
    (∀ trailers : Nat → List Char, (∀ i, Trailer (trailers i)) →
      scan (withTrailers trailers source) = scan source) ∧
    scan (withReturns source) = scan source := by
  have inLine : ∀ row ∈ source.toList.splitOn '\n', '\n' ∉ row := fun _ => Text.newline_not_mem_row
  have text : String.ofList (['\n'].intercalate (source.toList.splitOn '\n')) = source := by
    rw [List.intercalate_splitOn, String.ofList_toList]
  have trailed {trailers : Nat → List Char} (h : ∀ i, Trailer (trailers i)) :
      scan (withTrailers trailers source) = scan source := by
    have tokens := Token.list_rows inLine h
    rw [text] at tokens
    rw [scan_eq_list, scan_eq_list source, withTrailers, tokens]
  refine ⟨fun trailers h => trailed h, ?_⟩
  have returns := flatMap_returns inLine
  rw [List.intercalate_splitOn] at returns
  rw [withReturns, returns]
  refine trailed fun i => ?_
  split
  · exact .blanks (by simp)
  · exact .blanks (by simp)

/-- A text that is not closed, a malformed word before a comment, and a sign without a number: they
are reported where they stand, whatever blanks and comments follow. -/
theorem scan_withTrailers_unrecognized :
    let trailers : Nat → List Char := fun i =>
      if i = 0 then " muchoTexto: 9b".toList else if i = 1 then ['\t'] else ['\r']
    (∀ i, Trailer (trailers i)) ∧
      withTrailers trailers "x.ツ\n9;a muchoTexto: b\n-" =
        "x.ツ muchoTexto: 9b\n9;a muchoTexto: b\t\n-\r" ∧
      scan "x.ツ muchoTexto: 9b\n9;a muchoTexto: b\t\n-\r" =
        .error [⟨.unrecognized, "ツ", ⟨1, 3⟩⟩, ⟨.unrecognized, "9;a", ⟨2, 1⟩⟩,
          ⟨.unrecognized, "-", ⟨3, 1⟩⟩] := by
  intro trailers
  have each (i : Nat) : Trailer (trailers i) := by
    dsimp only [trailers]
    split
    · exact .comment (b := [' ']) (v := " 9b".toList) (by simp) (by simp) (by simp) (by simp)
    · split <;> exact .blanks (by simp)
  have text : withTrailers trailers "x.ツ\n9;a muchoTexto: b\n-" =
      "x.ツ muchoTexto: 9b\n9;a muchoTexto: b\t\n-\r" := by
    decide
  refine ⟨each, text, ?_⟩
  rw [← text, (scan_withTrailers _).1 trailers each]
  rfl

end Mamuth
