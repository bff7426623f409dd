-- The lines of a source text. Only newlines hold a newline, so a lexeme stands in one line, and
-- its place is told by the text before it: the newlines are counted for the line, and what
-- comes after the last of them for the column.
import Mathlib.Data.List.Induction
import Mathlib.Data.List.Nodup
import Mamuth.Proofs.Patterns

namespace Mamuth

/-! ## Which lexemes hold a newline -/

/-- Whether a character can be in what the pattern spells. -/
def Pattern.admits (c : Char) : Pattern → Bool
  | never | nothing => false
  | one test | many test => test c
  | seq p q | either p q => p.admits c || q.admits c

theorem Pattern.admits_of_spells {p : Pattern} {w : List Char} (h : p.Spells w) {c : Char}
    (hc : c ∈ w) : p.admits c := by
  induction h with
  | nothing => cases hc
  | one h => rwa [List.mem_singleton.mp hc]
  | stop => cases hc
  | more h _ ih =>
    rcases List.mem_cons.mp hc with rfl | hc
    · exact h
    · exact ih hc
  | seq _ _ ih ih' =>
    rw [admits, Bool.or_eq_true]
    exact (List.mem_append.mp hc).imp ih ih'
  | left _ ih =>
    rw [admits, ih hc]
    rfl
  | right _ ih => rw [admits, ih hc, Bool.or_true]

namespace Lexeme

theorem Form.admits_newline (form : Form) :
    form.pattern.admits '\n' = decide (form = .newline) := by
  cases form <;> decide

/-- The characters of a lexeme are such as its form admits. -/
theorem admits_of_mem {s : List Char} {l : Lexeme} (h : first? s = some l) {c : Char}
    (hc : c ∈ l.chars) : l.form.pattern.admits c :=
  Pattern.admits_of_spells (spells_of_first? h) hc

/-- A lexeme is a newline by itself, or it holds none. -/
theorem newline_or_inLine {s : List Char} {l : Lexeme} (h : first? s = some l) :
    (l.form = .newline ∧ l.chars = ['\n']) ∨ (l.form ≠ .newline ∧ '\n' ∉ l.chars) := by
  by_cases hf : l.form = .newline
  · have spells := spells_of_first? h
    rw [hf] at spells
    exact .inl ⟨hf, Pattern.spells_exactly.mp spells⟩
  · refine .inr ⟨hf, fun hn => hf ?_⟩
    simpa [l.form.admits_newline] using admits_of_mem h hn

/-- A lexeme of a text is the first of what is left there, with the lexemes behind it. -/
theorem first?_of_segment {s : List Char} {before after : List Lexeme} {l : Lexeme}
    (h : segment s = before ++ l :: after) :
    first? (l.chars ++ after.flatMap Lexeme.chars) = some l := by
  induction s using segment_induction generalizing before with
  | nil => simp at h
  | cons first rest hf ih =>
    cases before with
    | nil =>
      obtain ⟨rfl, rfl⟩ := List.cons.inj h
      rwa [chars_segment]
    | cons _ before => exact ih (List.cons.inj h).2

theorem first?_of_mem_segment {s : List Char} {l : Lexeme} (h : l ∈ segment s) :
    ∃ rest, first? rest = some l := by
  obtain ⟨_, _, split⟩ := List.append_of_mem h
  exact ⟨_, first?_of_segment split⟩

end Lexeme

/-! ## Positions -/

/-- The characters after the last newline. -/
def Text.lastLine (cs : List Char) : List Char := (cs.reverse.takeWhile (· ≠ '\n')).reverse

namespace Text

@[simp] theorem lastLine_nil : lastLine [] = [] := rfl

@[simp] theorem lastLine_newline (cs : List Char) : lastLine (cs ++ ['\n']) = [] := by
  simp [lastLine]

theorem lastLine_append {cs ds : List Char} (h : '\n' ∉ ds) :
    lastLine (cs ++ ds) = lastLine cs ++ ds := by
  have all : ∀ c ∈ ds.reverse, c ≠ '\n' := fun c hc he => h (he ▸ List.mem_reverse.mp hc)
  rw [lastLine, lastLine, List.reverse_append, List.takeWhile_append_of_pos (by simpa using all),
    List.reverse_append, List.reverse_reverse]

end Text

/-- The place that comes after a text. -/
theorem Position.after_start (cs : List Char) :
    Position.start.after cs = ⟨cs.count '\n' + 1, (Text.lastLine cs).length + 1⟩ := by
  induction cs using List.reverseRecOn with
  | nil => rfl
  | append_singleton cs c ih =>
    rw [after_append, ih, after_cons, after_nil, next]
    by_cases hc : c = '\n'
    · rw [if_pos hc, hc, Text.lastLine_newline]
      simp
    · rw [if_neg hc, Text.lastLine_append (by simpa using Ne.symm hc)]
      simp [hc]

namespace Position

/-- Earlier in a text. -/
def Before (p q : Position) : Prop := p.line < q.line ∨ p.line = q.line ∧ p.column < q.column

theorem Before.trans {p q r : Position} (h : p.Before q) (h' : q.Before r) : p.Before r := by
  unfold Before at *
  omega

theorem Before.ne {p q : Position} (h : p.Before q) : p ≠ q := by
  rintro rfl
  unfold Before at h
  omega

theorem before_next (p : Position) (c : Char) : p.Before (p.next c) := by
  unfold next
  split
  · exact .inl (Nat.lt_succ_self _)
  · exact .inr ⟨rfl, Nat.lt_succ_self _⟩

/-- Characters take place. -/
theorem before_after (p : Position) {cs : List Char} (h : cs ≠ []) : p.Before (p.after cs) := by
  induction cs generalizing p with
  | nil => exact absurd rfl h
  | cons c cs ih =>
    cases cs with
    | nil => exact p.before_next c
    | cons d ds => exact (p.before_next c).trans (ih (p.next c) (by simp))

/-- Characters of one line take one column each. -/
theorem after_inLine {cs : List Char} (h : '\n' ∉ cs) (p : Position) :
    p.after cs = ⟨p.line, p.column + cs.length⟩ := by
  induction cs generalizing p with
  | nil => rfl
  | cons c cs ih =>
    rw [List.mem_cons, not_or] at h
    rw [after_cons, ih h.2, next, if_neg (Ne.symm h.1), List.length_cons]
    simp only [Nat.add_assoc, Nat.add_comm 1]

end Position

/-! ## Placed lexemes -/

namespace Lexeme

/-- A lexeme stands after those before it. -/
theorem mem_place {p : Position} {ls : List Lexeme} {placed : Lexeme × Position}
    (h : placed ∈ place p ls) :
    ∃ before after, ls = before ++ placed.1 :: after ∧
      placed.2 = p.after (before.flatMap Lexeme.chars) := by
  induction ls generalizing p with
  | nil => cases h
  | cons l ls ih =>
    rw [place, List.mem_cons] at h
    rcases h with rfl | h
    · exact ⟨[], ls, rfl, rfl⟩
    · obtain ⟨before, after, rfl, hp⟩ := ih h
      exact ⟨l :: before, after, rfl, by rw [hp, List.flatMap_cons, Position.after_append]⟩

/-- Each lexeme stands before the next. -/
theorem pairwise_place {p : Position} {ls : List Lexeme} (h : ∀ l ∈ ls, l.chars ≠ []) :
    (place p ls).Pairwise fun a b => a.2.Before b.2 := by
  induction ls generalizing p with
  | nil => exact .nil
  | cons l ls ih =>
    rw [List.forall_mem_cons] at h
    rw [place, List.pairwise_cons]
    refine ⟨fun placed hm => ?_, ih h.2⟩
    obtain ⟨before, -, -, hp⟩ := mem_place hm
    rw [hp, ← Position.after_append]
    exact p.before_after (by simp [h.1])

end Lexeme

/-! ## Tokens in the text -/

/-- The lexeme of the token stands in the text at the position of the token. The lines that end
before it and the characters of its own line before it are counted. -/
def Token.WrittenIn (source : String) (t : Token) : Prop :=
  ∃ before after, source.toList = before ++ t.lexeme.toList ++ after ∧
    t.position = ⟨before.count '\n' + 1, (Text.lastLine before).length + 1⟩

namespace Token

theorem of_ofLexeme? {placed : Lexeme × Position} {t : Token} (h : ofLexeme? placed = some t) :
    t.position = placed.2 ∧ t.lexeme = String.ofList placed.1.chars ∧
      placed.1.form ≠ .newline := by
  obtain ⟨kind, hk, rfl⟩ := Option.map_eq_some_iff.mp h
  refine ⟨rfl, rfl, fun hf => ?_⟩
  simp [Lexeme.kind?, hf] at hk

theorem writtenIn_of_mem {source : String} {t : Token} (h : t ∈ list source) :
    t.WrittenIn source ∧ '\n' ∉ t.lexeme.toList := by
  obtain ⟨placed, hm, ht⟩ := List.mem_filterMap.mp h
  obtain ⟨position, lexeme, form⟩ := of_ofLexeme? ht
  obtain ⟨before, after, hs, hp⟩ := Lexeme.mem_place hm
  obtain ⟨rest, first⟩ := Lexeme.first?_of_mem_segment (s := source.toList) (l := placed.1)
    (by rw [hs]; simp)
  constructor
  · refine ⟨before.flatMap Lexeme.chars, after.flatMap Lexeme.chars, ?_, ?_⟩
    · rw [← Lexeme.chars_segment source.toList, hs, lexeme]
      simp
    · rw [position, hp, Position.after_start]
  · rw [lexeme, String.toList_ofList]
    rcases Lexeme.newline_or_inLine first with ⟨newline, -⟩ | ⟨-, inLine⟩
    · exact absurd newline form
    · exact inLine

/-- Each token stands before the next. -/
theorem pairwise_list (source : String) :
    (list source).Pairwise fun a b => a.position.Before b.position := by
  have ordered : (Lexeme.place .start (Lexeme.segment source.toList)).Pairwise
      fun a b => a.2.Before b.2 := Lexeme.pairwise_place fun l hl =>
    (Lexeme.begins_of_first? (Lexeme.first?_of_mem_segment hl).choose_spec).2
  refine List.Pairwise.filterMap ofLexeme? ?_ ordered
  intro a b hab t ht u hu
  rw [(of_ofLexeme? ht).1, (of_ofLexeme? hu).1]
  exact hab

theorem nodup_positions (source : String) : ((list source).map Token.position).Nodup :=
  List.pairwise_map.mpr ((pairwise_list source).imp Position.Before.ne)

/-- No two tokens stand at one place. -/
theorem eq_of_position {source : String} {t u : Token} (ht : t ∈ list source)
    (hu : u ∈ list source) (h : t.position = u.position) : t = u :=
  List.inj_on_of_nodup_map (nodup_positions source) ht hu h

end Token

/-! ## Scans -/

/-- A scan lists all tokens, or only the pieces that are none. -/
theorem scan_eq_list (source : String) :
    scan source =
      if (Token.list source).filter (·.kind = .unrecognized) = [] then .ok (Token.list source)
      else .error ((Token.list source).filter (·.kind = .unrecognized)) := by
  by_cases clean : (Token.list source).filter (·.kind = .unrecognized) = []
  · rw [if_pos clean]
    rw [List.filter_eq_nil_iff] at clean
    exact scan_of_recognized (by simpa using clean)
  · rw [if_neg clean, scan_eq, if_neg clean]

theorem Token.list_of_scan {source : String} {tokens : List Token} (h : scan source = .ok tokens) :
    Token.list source = tokens := by
  rw [scan_eq_list] at h
  split at h
  · exact Except.ok.inj h
  · cases h

end Mamuth
