-- Scanning by byte offsets. A text in UTF-8 can be cut only where a character starts. A scanner
-- that keeps the offset of its line, and cuts the text there and at the ends of each match, never
-- cuts it anywhere else, and gives the tokens with their lines and columns.
import Mamuth.Proofs.Lines

namespace Mamuth

/-! ## Cuts -/

namespace Text

/-- The number of bytes of a text. -/
def bytes : List Char → Nat
  | [] => 0
  | c :: cs => c.utf8Size + bytes cs

@[simp] theorem bytes_nil : bytes [] = 0 := rfl

@[simp] theorem bytes_cons (c : Char) (cs : List Char) :
    bytes (c :: cs) = c.utf8Size + bytes cs := rfl

@[simp] theorem bytes_append (cs ds : List Char) : bytes (cs ++ ds) = bytes cs + bytes ds := by
  induction cs with
  | nil => simp
  | cons c cs ih => simp [ih, Nat.add_assoc]

/-- The text before a byte and the text from it on. There is no such cut beyond the end of the
text or inside of a character. -/
def cut? : Nat → List Char → Option (List Char × List Char)
  | 0, cs => some ([], cs)
  | _ + 1, [] => none
  | n + 1, c :: cs =>
    if c.utf8Size ≤ n + 1 then
      (cut? (n + 1 - c.utf8Size) cs).map fun (before, after) => (c :: before, after)
    else none

/-- A text can be cut exactly at the ends of its beginnings. -/
theorem cut?_eq_some {n : Nat} {cs before after : List Char} :
    cut? n cs = some (before, after) ↔ cs = before ++ after ∧ n = bytes before := by
  induction cs generalizing n before with
  | nil =>
    cases n with
    | zero => cases before <;> simp [cut?, eq_comm]
    | succ n => cases before <;> simp [cut?]
  | cons c cs ih =>
    have long : 0 < c.utf8Size := c.utf8Size_pos
    cases n with
    | zero =>
      cases before with
      | nil => simp [cut?, eq_comm]
      | cons d ds =>
        have : 0 < d.utf8Size := d.utf8Size_pos
        simp [cut?]
        omega
    | succ n =>
      cases before with
      | nil =>
        unfold cut?
        split <;> simp
      | cons d ds =>
        unfold cut?
        split
        · rename_i fits
          constructor
          · intro h
            obtain ⟨⟨before, after⟩, hc, he⟩ := Option.map_eq_some_iff.mp h
            cases he
            obtain ⟨rfl, hn⟩ := ih.mp hc
            exact ⟨rfl, by rw [bytes_cons]; omega⟩
          · rintro ⟨he, hn⟩
            obtain ⟨rfl, rfl⟩ := List.cons.inj he
            rw [bytes_cons] at hn
            rw [ih.mpr ⟨rfl, by omega⟩]
            rfl
        · rename_i short
          refine ⟨nofun, ?_⟩
          rintro ⟨he, hn⟩
          obtain ⟨rfl, rfl⟩ := List.cons.inj he
          rw [bytes_cons] at hn
          omega

/-- The part of a text from one byte up to another. -/
def slice? (cs : List Char) (first last : Nat) : Option (List Char) := do
  if first ≤ last then
    let (_, after) ← cut? first cs
    let (part, _) ← cut? (last - first) after
    return part
  else none

theorem slice?_append (before part after : List Char) :
    slice? (before ++ part ++ after) (bytes before) (bytes (before ++ part)) = some part := by
  have ahead : cut? (bytes before) (before ++ part ++ after) = some (before, part ++ after) :=
    cut?_eq_some.mpr ⟨List.append_assoc _ _ _, rfl⟩
  have behind : cut? (bytes (before ++ part) - bytes before) (part ++ after) = some (part, after) :=
    cut?_eq_some.mpr ⟨rfl, by simp⟩
  have ordered : bytes before ≤ bytes (before ++ part) := by simp
  rw [slice?, if_pos ordered, ahead, Option.bind_eq_bind, Option.bind_some]
  dsimp only
  rw [behind]
  rfl

end Text

/-! ## Matches -/

/-- What was found in a text: a form, and the bytes where it starts and ends. -/
structure Match where
  form : Lexeme.Form
  first : Nat
  last : Nat

/-- The lexemes as matches, the first of them at a byte. -/
def Match.listFrom (first : Nat) : List Lexeme → List Match
  | [] => []
  | l :: ls =>
    ⟨l.form, first, first + Text.bytes l.chars⟩ :: listFrom (first + Text.bytes l.chars) ls

/-! ## The scanner -/

/-- A scanner on its way through a text. -/
structure Scanner where
  line : Nat
  /-- The byte at which the line starts. -/
  lineStart : Nat
  tokens : List Token
  errors : List Token

namespace Scanner

def start : Scanner := ⟨1, 0, [], []⟩

/-- Deals with one match. The column is counted in the text from the start of the line. -/
def step (source : List Char) (s : Scanner) (m : Match) : Option Scanner := do
  let before ← Text.slice? source s.lineStart m.first
  let chars ← Text.slice? source m.first m.last
  let token (kind : Token.Kind) : Token :=
    ⟨kind, String.ofList chars, ⟨s.line, before.length + 1⟩⟩
  match (Lexeme.mk m.form chars).kind? with
  | some .unrecognized => return { s with errors := s.errors ++ [token .unrecognized] }
  | some kind => return { s with tokens := s.tokens ++ [token kind] }
  | none =>
    return if m.form = .newline then { s with line := s.line + 1, lineStart := m.last } else s

/-- The outcome of a whole scan, unless it cuts the text where it cannot be cut. -/
def scan? (source : String) : Option (Except (List Token) (List Token)) := do
  let s ← (Match.listFrom 0 (Lexeme.segment source.toList)).foldlM (step source.toList) start
  return if s.errors = [] then .ok s.tokens else .error s.errors

/-! ## Where the scanner cuts -/

/-- The scanner knows the line that a text ends in, and where it starts. -/
structure KnowsLine (s : Scanner) (before : List Char) : Prop where
  line : s.line = before.count '\n' + 1
  lineStart : ∃ lines, before = lines ++ Text.lastLine before ∧ s.lineStart = Text.bytes lines

variable {source before : List Char} {s : Scanner}

theorem KnowsLine.start : KnowsLine .start [] := ⟨rfl, [], rfl, rfl⟩

/-- The text from the start of the line up to the next match. -/
theorem slice?_line (h : KnowsLine s before) (after : List Char) :
    Text.slice? (before ++ after) s.lineStart (Text.bytes before) =
      some (Text.lastLine before) := by
  obtain ⟨lines, hb, hs⟩ := h.lineStart
  have cut := Text.slice?_append lines (Text.lastLine before) after
  rwa [← hb, ← hs] at cut

/-- Within a line, the scanner still knows it. -/
theorem KnowsLine.inLine {s' : Scanner} (h : KnowsLine s before) {chars : List Char}
    (hc : '\n' ∉ chars) (line : s'.line = s.line) (start : s'.lineStart = s.lineStart) :
    KnowsLine s' (before ++ chars) where
  line := by rw [line, h.line, List.count_append, List.count_eq_zero_of_not_mem hc, Nat.add_zero]
  lineStart := by
    obtain ⟨lines, hb, hs⟩ := h.lineStart
    refine ⟨lines, ?_, start.trans hs⟩
    rw [Text.lastLine_append hc, ← List.append_assoc, ← hb]

theorem KnowsLine.newline {s' : Scanner} (h : KnowsLine s before) (line : s'.line = s.line + 1)
    (start : s'.lineStart = Text.bytes (before ++ ['\n'])) : KnowsLine s' (before ++ ['\n']) where
  line := by rw [line, h.line, List.count_append, List.count_singleton_self]
  lineStart := ⟨before ++ ['\n'], by rw [Text.lastLine_newline, List.append_nil], start⟩

/-- A match is dealt with as its lexeme: the token goes where it belongs, if there is one. -/
theorem step_eq {l : Lexeme} (rest : List Char) (h : KnowsLine s before)
    (whole : (l.form = .newline ∧ l.chars = ['\n']) ∨ (l.form ≠ .newline ∧ '\n' ∉ l.chars)) :
    ∃ s', s.step (before ++ l.chars ++ rest)
        ⟨l.form, Text.bytes before, Text.bytes (before ++ l.chars)⟩ = some s' ∧
      KnowsLine s' (before ++ l.chars) ∧
      s'.tokens = s.tokens ++
        (Token.ofLexeme? (l, Position.start.after before)).toList.filter (·.kind ≠ .unrecognized) ∧
      s'.errors = s.errors ++
        (Token.ofLexeme? (l, Position.start.after before)).toList.filter
          (·.kind = .unrecognized) := by
  have line : Text.slice? (before ++ l.chars ++ rest) s.lineStart (Text.bytes before) =
      some (Text.lastLine before) := by
    rw [List.append_assoc]
    exact slice?_line h _
  have position : (⟨s.line, (Text.lastLine before).length + 1⟩ : Position) =
      Position.start.after before := by rw [Position.after_start, h.line]
  simp only [step, line, Text.slice?_append, Option.bind_eq_bind, Option.bind_some, position,
    Token.ofLexeme?]
  rcases whole with ⟨hf, hc⟩ | ⟨hf, hc⟩
  · have layout : l.kind? = none := by simp [Lexeme.kind?, hf]
    refine ⟨{ s with line := s.line + 1, lineStart := Text.bytes (before ++ l.chars) }, ?_, ?_, ?_⟩
    · rw [layout]
      simp [hf]
    · rw [hc]
      exact h.newline rfl rfl
    · simp [layout]
  · cases hk : l.kind? with
    | none => exact ⟨s, by simp [hf], h.inLine hc rfl rfl, by simp⟩
    | some kind =>
      let t : Token := ⟨kind, String.ofList l.chars, Position.start.after before⟩
      by_cases unrecognized : kind = .unrecognized
      · subst unrecognized
        exact ⟨{ s with errors := s.errors ++ [t] }, rfl, h.inLine hc rfl rfl, by simp, by simp [t]⟩
      · refine ⟨{ s with tokens := s.tokens ++ [t] }, ?_, h.inLine hc rfl rfl, ?_, ?_⟩
        · cases kind <;> first | exact absurd rfl unrecognized | rfl
        · simp [t, unrecognized]
        · simp [unrecognized]

/-- From a match on, the scanner goes to the end without a wrong cut, and adds what it finds. -/
theorem foldlM_step (ls : List Lexeme) {s : Scanner} {before : List Char} (h : KnowsLine s before)
    (whole : ∀ l ∈ ls,
      (l.form = .newline ∧ l.chars = ['\n']) ∨ (l.form ≠ .newline ∧ '\n' ∉ l.chars)) :
    ∃ s', (Match.listFrom (Text.bytes before) ls).foldlM
        (step (before ++ ls.flatMap Lexeme.chars)) s = some s' ∧
      s'.tokens = s.tokens ++ ((Lexeme.place (Position.start.after before) ls).filterMap
        Token.ofLexeme?).filter (·.kind ≠ .unrecognized) ∧
      s'.errors = s.errors ++ ((Lexeme.place (Position.start.after before) ls).filterMap
        Token.ofLexeme?).filter (·.kind = .unrecognized) := by
  induction ls generalizing s before with
  | nil => exact ⟨s, rfl, by simp [Lexeme.place], by simp [Lexeme.place]⟩
  | cons l ls ih =>
    rw [List.forall_mem_cons] at whole
    obtain ⟨s₁, one, knows, tokens, errors⟩ :=
      step_eq (ls.flatMap Lexeme.chars) h whole.1
    obtain ⟨s₂, others, tokens', errors'⟩ := ih knows whole.2
    have first : (Lexeme.place (Position.start.after before) (l :: ls)).filterMap
        Token.ofLexeme? = (Token.ofLexeme? (l, Position.start.after before)).toList ++
          (Lexeme.place (Position.start.after (before ++ l.chars)) ls).filterMap
            Token.ofLexeme? := by
      rw [Lexeme.place, Position.after_append, List.filterMap_cons]
      cases Token.ofLexeme? (l, Position.start.after before) <;> rfl
    refine ⟨s₂, ?_, ?_, ?_⟩
    · rw [Match.listFrom, List.foldlM_cons, List.flatMap_cons, ← List.append_assoc,
        ← Text.bytes_append, one]
      exact others
    · rw [tokens', tokens, first, List.filter_append, List.append_assoc]
    · rw [errors', errors, first, List.filter_append, List.append_assoc]

/-- The scanner never cuts a text where it cannot be cut, and its outcome is that of the scan. -/
theorem scan?_eq (source : String) : scan? source = some (Mamuth.scan source) := by
  have whole : ∀ l ∈ Lexeme.segment source.toList,
      (l.form = .newline ∧ l.chars = ['\n']) ∨ (l.form ≠ .newline ∧ '\n' ∉ l.chars) := fun l hl =>
    Lexeme.newline_or_inLine (Lexeme.first?_of_mem_segment hl).choose_spec
  obtain ⟨s, run, tokens, errors⟩ := foldlM_step (Lexeme.segment source.toList) .start whole
  rw [Lexeme.chars_segment, List.nil_append, Text.bytes_nil] at run
  have tokens : s.tokens = (Token.list source).filter (·.kind ≠ .unrecognized) := tokens
  have errors : s.errors = (Token.list source).filter (·.kind = .unrecognized) := errors
  rw [scan?, run, Option.bind_eq_bind, Option.bind_some, tokens, errors, Mamuth.scan_eq]
  rfl

end Scanner

end Mamuth
