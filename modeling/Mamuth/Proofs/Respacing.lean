-- Other gaps around the same tokens. A lexeme ends where a blank or a newline comes, unless it is a
-- text, which goes on to the last text mark of its line. So tokens keep their kinds and their
-- lexemes when they are written with other gaps between them, as long as no two texts share a line.
import Mathlib.Data.List.TakeWhile
import Mamuth.Proofs.JoinedLines
import Mamuth.Proofs.SameWords

namespace Mamuth

/-- Tokens with a gap behind each: a blank or a newline at least between two tokens, and a newline
between two texts. -/
structure Spaced (rows : List (Token × String)) : Prop where
  layout : ∀ row ∈ rows, ∀ c ∈ row.2.toList, c ∈ [' ', '\t', '\r', '\n']
  apart : ∀ row ∈ rows.dropLast, row.2 ≠ ""
  lines : ∀ front t inner u back, rows = front ++ t :: (inner ++ u :: back) → t.1.kind = .text →
    u.1.kind = .text → ∃ gap ∈ (t :: inner).map Prod.snd, '\n' ∈ gap.toList

/-- New gaps for tokens: one before the first of them and one behind each. -/
structure Respacing (tokens : List Token) where
  before : String
  rows : List (Token × String)
  tokens_eq : rows.map Prod.fst = tokens
  layout_before : ∀ c ∈ before.toList, c ∈ [' ', '\t', '\r', '\n']
  spaced : Spaced rows

namespace Respacing

/-- The lexemes with the gaps behind them. -/
def written (rows : List (Token × String)) : String :=
  String.join (rows.map fun row => row.1.lexeme ++ row.2)

def source {tokens : List Token} (r : Respacing tokens) : String := r.before ++ written r.rows

end Respacing

namespace Lexeme

/-! ## A lexeme before a gap -/

/-- The forms that neither layout nor a text mark can be in. -/
def Form.isTight : Form → Bool
  | malformed | punctuation | float | integer | word => true
  | comment | text | newline | blank | stray => false

theorem Form.not_admits {form : Form} (tight : form.isTight) :
    ∀ c ∈ [textMark, ' ', '\t', '\r', '\n'], form.pattern.admits c = false := by
  have all : [textMark, ' ', '\t', '\r', '\n'].all fun c => !form.pattern.admits c := by
    cases form <;> first | exact absurd tight (by decide) | decide
  exact fun c hc => Bool.not_eq_true' _ ▸ List.all_eq_true.mp all c hc

/-- Neither layout nor a text mark is in what such a form spells. -/
theorem not_mem_of_isTight {form : Form} (tight : form.isTight) {w : List Char}
    (spells : form.pattern.Spells w) : ∀ c ∈ [textMark, ' ', '\t', '\r', '\n'], c ∉ w := by
  intro c hc mem
  have admits := Pattern.admits_of_spells spells mem
  rw [Form.not_admits tight c hc] at admits
  cases admits

theorem begins_of_isTight {form : Form} {w rest v : List Char} (tight : form.isTight)
    (gap : ∀ c ∈ rest.head?, c ∈ [' ', '\t', '\r', '\n']) (h : v <+: w ++ rest)
    (spells : form.pattern.Spells v) : v <+: w :=
  begins_of_not_mem h fun c hc =>
    not_mem_of_isTight tight spells c (List.mem_cons_of_mem _ (gap c hc))

/-- A token that is not a text has a form that nothing of the gap can be in. -/
theorem text_or_isTight {l : Lexeme} {kind : Token.Kind} (hk : l.kind? = some kind)
    (recognized : kind ≠ .unrecognized) : l.form = .text ∨ l.form.isTight := by
  cases hf : l.form with
  | text => exact .inl rfl
  | malformed | punctuation | float | integer | word => exact .inr rfl
  | stray =>
    simp only [kind?, hf, Option.some.injEq] at hk
    exact absurd hk.symm recognized
  | comment | newline | blank => simp [kind?, hf] at hk

/-- The forms that are tried before that of a token. -/
theorem tried_before {before after : List Form} {form tried : Form}
    (order : Form.precedence = before ++ form :: after) (h : tried ∈ before)
    (token : form = .text ∨ form.isTight) :
    tried.isTight ∨ tried = .comment ∨ tried = .text ∧ form.isTight := by
  have once : (before ++ form :: after).Nodup := order ▸ (by decide : Form.precedence.Nodup)
  have others : ∀ f ∈ before, decide (f ≠ form) = true := fun f hf =>
    decide_eq_true (List.nodup_append.mp once |>.2.2 f hf form List.mem_cons_self)
  have early : tried ∈ Form.precedence.takeWhile (· ≠ form) := by
    rw [order, List.takeWhile_append_of_pos others]
    exact List.mem_append_left _ h
  clear once others h order
  revert early
  rcases token with rfl | tight
  · cases tried <;> decide
  · cases form <;> first | exact absurd tight (by decide) | (cases tried <;> decide)

theorem begins_commentMark {v : List Char} (h : Form.comment.pattern.Spells v) :
    commentMark <+: v := by
  obtain ⟨mark, hm, rest, -, rfl⟩ := Pattern.spells_seq.mp h
  rw [Pattern.spells_exactly.mp hm]
  exact List.prefix_append _ _

theorem spells_commentMark : Form.comment.pattern.Spells commentMark :=
  Pattern.spells_seq.mpr ⟨_, Pattern.spells_exactly.mpr rfl, [], .stop, (List.append_nil _).symm⟩

/-- The mark of a comment ends before a gap. -/
theorem begins_commentMark_of_gap {w rest : List Char}
    (gap : ∀ c ∈ rest.head?, c ∈ [' ', '\t', '\r', '\n']) (h : commentMark <+: w ++ rest) :
    commentMark <+: w := by
  refine begins_of_not_mem h fun c hc mem => ?_
  have free : commentMark.all fun c => c ∉ [' ', '\t', '\r', '\n'] := by decide
  exact of_decide_eq_true (List.all_eq_true.mp free c mem) (gap c hc)

/-- A text has a text mark at its start, another one at its end, and no newline in it. -/
theorem marks_of_spells {v : List Char} (h : Form.text.pattern.Spells v) :
    v.head? = some textMark ∧ v.getLast? = some textMark ∧ '\n' ∉ v := by
  refine ⟨?_, ?_, fun hn => ?_⟩
  · obtain ⟨mark, hm, rest, -, rfl⟩ := Pattern.spells_seq.mp h
    rw [Pattern.spells_exactly.mp hm]
    rfl
  · obtain ⟨mark, -, rest, hr, rfl⟩ := Pattern.spells_seq.mp h
    obtain ⟨inner, -, last, hl, rfl⟩ := Pattern.spells_seq.mp hr
    rw [Pattern.spells_exactly.mp hl, ← List.append_assoc, List.getLast?_concat]
    rfl
  · exact absurd (Pattern.admits_of_spells h hn) (by decide)

theorem head_of_begins {w rest v : List Char} {c : Char} (hw : w ≠ []) (h : v <+: w ++ rest)
    (head : v.head? = some c) : c ∈ w := by
  obtain ⟨d, w, rfl⟩ := List.exists_cons_of_ne_nil hw
  obtain ⟨v, rfl⟩ := List.head?_eq_some_iff.mp head
  rw [List.cons_append, List.cons_prefix_cons] at h
  rw [h.1]
  exact List.mem_cons_self

/-- What goes on over a gap without a newline ends in the line of the gap. -/
theorem mark_of_longer {w rest v : List Char} {c : Char} (h : v <+: w ++ rest)
    (longer : w.length < v.length) (last : v.getLast? = some c) (inLine : '\n' ∉ v) :
    c ∈ line rest := by
  rcases List.prefix_or_prefix_of_prefix h (List.prefix_append w rest) with within | ⟨u, rfl⟩
  · exact absurd within.length_le (Nat.not_le_of_lt longer)
  · obtain ⟨after, rfl⟩ := (List.prefix_append_right_inj w).mp h
    have more : u ≠ [] := by
      rintro rfl
      simp at longer
    rw [List.getLast?_append_of_ne_nil _ more] at last
    have row : ∀ d ∈ u, decide (d ≠ '\n') = true := fun d hd =>
      decide_eq_true fun he => inLine (List.mem_append_right w (he ▸ hd))
    rw [line, List.takeWhile_append_of_pos row]
    exact List.mem_append_left _ (List.mem_of_getLast? last)

/-- A token that is a lexeme by itself stays one before a gap. -/
theorem first?_append_gap {l : Lexeme} {kind : Token.Kind} {rest : List Char}
    (alone : first? l.chars = some l) (hk : l.kind? = some kind) (recognized : kind ≠ .unrecognized)
    (gap : ∀ c ∈ rest.head?, c ∈ [' ', '\t', '\r', '\n'])
    (marks : l.form = .text → textMark ∉ line rest) : first? (l.chars ++ rest) = some l := by
  have token := text_or_isTight hk recognized
  obtain ⟨before, after, order, earlier, longest⟩ := preferred_iff.mpr alone
  refine preferred_iff.mp ⟨before, after, order, fun tried ht v hv spells => ?_,
    List.prefix_append _ _, longest.spells, fun v hv spells => ?_⟩
  · rcases tried_before order ht token with tight | rfl | ⟨rfl, tight⟩
    · exact earlier tried ht v (begins_of_isTight tight gap hv spells) spells
    · -- The mark ends before the gap: the token would be a comment by itself.
      exact earlier .comment ht commentMark
        (begins_commentMark_of_gap gap ((begins_commentMark spells).trans hv)) spells_commentMark
    · -- The lexeme would start with a text mark.
      have mark := head_of_begins (begins_of_first? alone).2 hv (marks_of_spells spells).1
      exact absurd mark (not_mem_of_isTight tight longest.spells textMark List.mem_cons_self)
  · rcases token with text | tight
    · rw [text] at spells
      obtain ⟨-, last, inLine⟩ := marks_of_spells spells
      by_contra longer
      exact marks text (mark_of_longer hv (Nat.lt_of_not_le longer) last inLine)
    · exact (begins_of_isTight tight gap hv spells).length_le

/-! ## Words -/

/-- The kinds and the lexemes of the tokens of a text. -/
def words (s : List Char) : List (Token.Kind × String) :=
  (segment s).filterMap fun l => l.kind?.map fun kind => (kind, String.ofList l.chars)

theorem words_list (source : String) :
    (Token.list source).map Token.word = words source.toList := by
  have placed (p : Position) (ls : List Lexeme) :
      ((place p ls).filterMap Token.ofLexeme?).map Token.word =
        ls.filterMap fun l => l.kind?.map fun kind => (kind, String.ofList l.chars) := by
    conv_rhs => rw [← forms_place p ls, List.filterMap_map]
    rw [List.map_filterMap]
    refine List.filterMap_congr fun placed _ => ?_
    simp [Token.ofLexeme?, Token.word, Function.comp_def]
  exact placed _ _

theorem words_token {l : Lexeme} {kind : Token.Kind} {rest : List Char}
    (first : first? (l.chars ++ rest) = some l) (hk : l.kind? = some kind) :
    words (l.chars ++ rest) = (kind, String.ofList l.chars) :: words rest := by
  rw [words, segment_of_first? first, List.drop_left, List.filterMap_cons, hk]
  rfl

/-- A blank starts nothing but a run of blanks. -/
theorem first?_blank {c : Char} (hc : isBlank c) (s : List Char) :
    first? (c :: s) = some ⟨.blank, c :: s.takeWhile isBlank⟩ := by
  have : c = ' ' ∨ c = '\t' ∨ c = '\r' := by simpa [isBlank, or_assoc] using hc
  rcases this with rfl | rfl | rfl <;> rfl

theorem words_blank {c : Char} (hc : isBlank c) (s : List Char) :
    words (c :: s) = words (s.dropWhile isBlank) := by
  have after : s.drop (s.takeWhile isBlank).length = s.dropWhile isBlank :=
    calc s.drop (s.takeWhile isBlank).length
      _ = (s.takeWhile isBlank ++ s.dropWhile isBlank).drop (s.takeWhile isBlank).length := by
        rw [List.takeWhile_append_dropWhile]
      _ = s.dropWhile isBlank := List.drop_left
  rw [words, segment_of_first? (first?_blank hc s), List.length_cons, List.drop_succ_cons, after]
  rfl

/-- Layout gives no words. -/
theorem words_layout {c : Char} (hc : c ∈ [' ', '\t', '\r', '\n']) (s : List Char) :
    words (c :: s) = words s := by
  have : isBlank c ∨ c = '\n' := by simpa [isBlank, or_assoc] using hc
  rcases this with blank | rfl
  · cases s with
    | nil => exact words_blank blank []
    | cons d s =>
      rw [words_blank blank]
      by_cases hd : isBlank d
      · rw [words_blank hd, List.dropWhile_cons_of_pos hd]
      · rw [List.dropWhile_cons_of_neg hd]
  · have first : first? ('\n' :: s) = some ⟨.newline, ['\n']⟩ := rfl
    rw [words, segment_of_first? first]
    rfl

theorem words_gap {g : List Char} (layout : ∀ c ∈ g, c ∈ [' ', '\t', '\r', '\n']) (s : List Char) :
    words (g ++ s) = words s := by
  induction g with
  | nil => rfl
  | cons c g ih =>
    rw [List.forall_mem_cons] at layout
    rw [List.cons_append, words_layout layout.1, ih layout.2]

end Lexeme

/-! ## Tokens with other gaps -/

/-- A token that is a lexeme by itself. -/
def Token.IsLexeme (t : Token) : Prop :=
  ∃ l : Lexeme, Lexeme.first? l.chars = some l ∧ l.kind? = some t.kind ∧
    t.kind ≠ .unrecognized ∧ t.lexeme = String.ofList l.chars

theorem Token.isLexeme_of_scan {source : String} {tokens : List Token}
    (h : scan source = .ok tokens) {t : Token} (ht : t ∈ tokens) : t.IsLexeme := by
  obtain ⟨l, p, alone, given, recognized⟩ := lexeme_of_scan h ht
  obtain ⟨kind, hk, rfl⟩ := Option.map_eq_some_iff.mp given
  exact ⟨l, alone, hk, recognized, rfl⟩

/-- Text marks are in texts only. -/
theorem Token.IsLexeme.unmarked {t : Token} (h : t.IsLexeme) (other : t.kind ≠ .text) :
    Lexeme.textMark ∉ t.lexeme.toList := by
  obtain ⟨l, alone, hk, recognized, lexeme⟩ := h
  rw [lexeme, String.toList_ofList]
  rcases Lexeme.text_or_isTight hk recognized with text | tight
  · rw [Lexeme.kind?, text, Option.some.injEq] at hk
    exact absurd hk.symm other
  · exact Lexeme.not_mem_of_isTight tight (Lexeme.spells_of_first? alone) _ List.mem_cons_self

theorem Spaced.tail {row : Token × String} {rows : List (Token × String)}
    (h : Spaced (row :: rows)) : Spaced rows := by
  refine ⟨(List.forall_mem_cons.mp h.layout).2, fun r hr => ?_,
    fun front t inner u back split => ?_⟩
  · cases rows with
    | nil => cases hr
    | cons next rows => exact h.apart r (List.mem_cons_of_mem _ hr)
  · exact h.lines (row :: front) t inner u back (by rw [split]; rfl)

namespace Respacing

open Lexeme

theorem toList_written_cons (row : Token × String) (rows : List (Token × String)) :
    (written (row :: rows)).toList =
      row.1.lexeme.toList ++ (row.2.toList ++ (written rows).toList) := by
  simp [written, String.toList_join]

/-- What comes behind a token starts with layout. -/
theorem layout_of_head? {row : Token × String} {rows : List (Token × String)}
    (h : Spaced (row :: rows)) : ∀ c ∈ (row.2.toList ++ (written rows).toList).head?,
      c ∈ [' ', '\t', '\r', '\n'] := by
  intro c hc
  cases hg : row.2.toList with
  | cons d g =>
    rw [hg] at hc
    cases hc
    exact h.layout row List.mem_cons_self _ (hg ▸ List.mem_cons_self)
  | nil =>
    cases rows with
    | nil =>
      rw [hg] at hc
      cases hc
    | cons next rows =>
      exact absurd (String.toList_eq_nil_iff.mp hg) (h.apart row List.mem_cons_self)

/-- A line goes on over what holds no newline. -/
theorem mem_line_append {c : Char} {v w : List Char} (h : c ∈ line (v ++ w)) :
    c ∈ v ∨ '\n' ∉ v ∧ c ∈ line w := by
  by_cases hn : '\n' ∈ v
  · rcases List.prefix_or_prefix_of_prefix (List.takeWhile_prefix (· ≠ '\n'))
      (List.prefix_append v w) with within | beyond
    · exact .inl (within.subset h)
    · simpa using List.mem_takeWhile_imp (beyond.subset hn)
  · have inLine : ∀ d ∈ v, decide (d ≠ '\n') = true := fun d hd =>
      decide_eq_true fun he => hn (he ▸ hd)
    rw [line, List.takeWhile_append_of_pos inLine, List.mem_append] at h
    exact h.imp_right fun h => ⟨hn, h⟩

/-- No text mark comes in the line of a gap when no text does. -/
theorem textMark_not_mem {gap : String} {rows : List (Token × String)}
    (layout : ∀ c ∈ gap.toList, c ∈ [' ', '\t', '\r', '\n']) (spaced : Spaced rows)
    (unmarked : ∀ row ∈ rows, row.1.kind ≠ .text → textMark ∉ row.1.lexeme.toList)
    (lines : ∀ front u back, rows = front ++ u :: back → u.1.kind = .text →
      ∃ g ∈ gap :: front.map Prod.snd, '\n' ∈ g.toList) :
    textMark ∉ line (gap.toList ++ (written rows).toList) := by
  intro mark
  induction rows generalizing gap with
  | nil =>
    rcases mem_line_append mark with inGap | ⟨-, none⟩
    · exact absurd (layout textMark inGap) (by decide)
    · cases none
  | cons row rows ih =>
    rw [List.forall_mem_cons] at unmarked
    rcases mem_line_append mark with inGap | ⟨goesOn, mark⟩
    · exact absurd (layout textMark inGap) (by decide)
    rw [toList_written_cons] at mark
    rcases mem_line_append mark with inLexeme | ⟨-, mark⟩
    · refine unmarked.1 (fun text => ?_) inLexeme
      obtain ⟨g, hg, newline⟩ := lines [] row rows rfl text
      rw [List.mem_singleton.mp hg] at newline
      exact goesOn newline
    · refine ih (spaced.layout row List.mem_cons_self) spaced.tail unmarked.2
        (fun front u back split text => ?_) mark
      obtain ⟨g, hg, newline⟩ := lines (row :: front) u back (by rw [split]; rfl) text
      rcases List.mem_cons.mp hg with rfl | hg
      · exact absurd newline goesOn
      · exact ⟨g, hg, newline⟩

/-- The words are those of the tokens. -/
theorem words_written {rows : List (Token × String)} (spaced : Spaced rows)
    (tokens : ∀ row ∈ rows, row.1.IsLexeme) :
    words (written rows).toList = rows.map fun row => row.1.word := by
  induction rows with
  | nil => rfl
  | cons row rows ih =>
    obtain ⟨own, others⟩ := List.forall_mem_cons.mp tokens
    obtain ⟨l, alone, hk, recognized, lexeme⟩ := own
    have layout := spaced.layout row List.mem_cons_self
    have marks (text : l.form = .text) :
        textMark ∉ line (row.2.toList ++ (written rows).toList) := by
      have kind : row.1.kind = .text := by
        rw [kind?, text, Option.some.injEq] at hk
        exact hk.symm
      refine textMark_not_mem layout spaced.tail (fun row hr => (others row hr).unmarked) ?_
      exact fun front u back split => spaced.lines [] row front u back (by rw [split]; rfl) kind
    have first := first?_append_gap alone hk recognized (layout_of_head? spaced) marks
    have chars : row.1.lexeme.toList = l.chars := by rw [lexeme, String.toList_ofList]
    rw [toList_written_cons, chars, words_token first hk, words_gap layout, ih spaced.tail others,
      List.map_cons, ← lexeme]
    rfl

end Respacing

/-- Tokens that are written with other gaps are scanned again, with their kinds and lexemes. -/
theorem scan_respaced {source : String} {tokens : List Token} (h : scan source = .ok tokens)
    (r : Respacing tokens) :
    ∃ us, scan r.source = .ok us ∧ us.map Token.word = tokens.map Token.word := by
  have lexemes : ∀ row ∈ r.rows, row.1.IsLexeme := fun row hr =>
    Token.isLexeme_of_scan h (r.tokens_eq ▸ List.mem_map_of_mem hr)
  have words : (Token.list r.source).map Token.word = tokens.map Token.word := by
    rw [Lexeme.words_list, Respacing.source, String.toList_append,
      Lexeme.words_gap r.layout_before, Respacing.words_written r.spaced lexemes]
    exact List.map_map.symm.trans (congrArg (List.map Token.word) r.tokens_eq)
  refine ⟨_, scan_of_recognized fun t ht => ?_, words⟩
  have : t.word ∈ tokens.map Token.word := words ▸ List.mem_map_of_mem ht
  obtain ⟨u, hu, same⟩ := List.mem_map.mp this
  rw [← show u.kind = t.kind from congrArg Prod.fst same]
  obtain ⟨l, -, -, recognized, -⟩ := Token.isLexeme_of_scan h hu
  exact recognized

/-- A comment between two texts falls away, and each text ends its line. -/
theorem scan_respaced_texts : ∃ tokens us,
    scan "x anotado ツaツ.muchoTexto: b\ny anotado ツツ." = .ok tokens ∧
      scan "\r\nx\tanotado ツaツ \n. y\tanotado\rツツ\n\n." = .ok us ∧
      us.map Token.word = tokens.map Token.word := by
  let tokens : List Token :=
    [⟨.identifier, "x", ⟨1, 1⟩⟩, ⟨.assignment, "anotado", ⟨1, 3⟩⟩, ⟨.text, "ツaツ", ⟨1, 11⟩⟩,
      ⟨.punctuation, ".", ⟨1, 14⟩⟩, ⟨.identifier, "y", ⟨2, 1⟩⟩, ⟨.assignment, "anotado", ⟨2, 3⟩⟩,
      ⟨.text, "ツツ", ⟨2, 11⟩⟩, ⟨.punctuation, ".", ⟨2, 13⟩⟩]
  let rows := tokens.zip ["\t", " ", " \n", " ", "\t", "\r", "\n\n", ""]
  have scanned : scan "x anotado ツaツ.muchoTexto: b\ny anotado ツツ." = .ok tokens := rfl
  have layout : rows.all fun row => row.2.toList.all (· ∈ [' ', '\t', '\r', '\n']) := by decide
  have apart : rows.dropLast.all (·.2 ≠ "") := by decide
  have ends : rows.all fun row => row.1.kind ≠ .text ∨ '\n' ∈ row.2.toList := by decide
  have spaced : Spaced rows := by
    refine ⟨fun row hr c hc => ?_, fun row hr => ?_, fun front t inner u back split text _ =>
      ⟨t.2, List.mem_cons_self, ?_⟩⟩
    · exact of_decide_eq_true (List.all_eq_true.mp (List.all_eq_true.mp layout row hr) c hc)
    · exact of_decide_eq_true (List.all_eq_true.mp apart row hr)
    · have here : t ∈ rows := by rw [split]; simp
      exact (of_decide_eq_true (List.all_eq_true.mp ends t here)).resolve_left (not_not_intro text)
  let r : Respacing tokens := ⟨"\r\n", rows, rfl, by simp, spaced⟩
  obtain ⟨us, again, words⟩ := scan_respaced scanned r
  exact ⟨tokens, us, scanned, again, words⟩

end Mamuth
