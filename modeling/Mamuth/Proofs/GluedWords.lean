-- Words right behind numbers. Figures with letters behind them are one malformed piece, so that a
-- text in which a word is glued to a number is not scanned. But a piece that is malformed does not
-- begin with a sign: a number with a sign is taken by itself, and the word behind it is a token.
import Mamuth.Proofs.Respacing

namespace Mamuth

open Lexeme

namespace Token

/-- The other token starts on the line and in the column where the first one ends. -/
def Touches (t u : Token) : Prop :=
  u.position = ⟨t.position.line, t.position.column + t.lexeme.length⟩

def isNumber (t : Token) : Bool := t.kind = .integer || t.kind = .float

/-- There is a minus sign in front. -/
def isSigned (t : Token) : Bool := t.lexeme.toList.head? = some '-'

def startsWithLetter (t : Token) : Bool := t.lexeme.toList.head?.any isLetter

end Token

/-! ## Lexemes next to each other -/

namespace Lexeme

/-- Two beginnings of the lexemes of a text end at the same place only if they are the same. -/
theorem eq_of_after {s : List Char} {xs ys : List Lexeme} (hx : xs <+: segment s)
    (hy : ys <+: segment s) (h : Position.start.after (xs.flatMap Lexeme.chars) =
      Position.start.after (ys.flatMap Lexeme.chars)) : xs = ys := by
  have shorter {xs ys : List Lexeme} (hy : ys <+: segment s) (begins : xs <+: ys)
      (h : Position.start.after (xs.flatMap Lexeme.chars) =
        Position.start.after (ys.flatMap Lexeme.chars)) : xs = ys := by
    obtain ⟨more, rfl⟩ := begins
    cases more with
    | nil => rw [List.append_nil]
    | cons l more =>
      obtain ⟨_, first⟩ := first?_of_mem_segment (hy.subset (a := l) (by simp))
      rw [List.flatMap_append, Position.after_append] at h
      refine absurd h (Position.before_after _ ?_).ne
      simp [(begins_of_first? first).2]
  rcases List.prefix_or_prefix_of_prefix hx hy with begins | begins
  · exact shorter hy begins h
  · exact (shorter hx begins h.symm).symm

end Lexeme

/-- A token that touches another one comes from the next lexeme. -/
theorem Token.lexemes_of_touches {source : String} {t u : Token} (ht : t ∈ list source)
    (hu : u ∈ list source) (h : t.Touches u) : ∃ l m rest p q,
      first? (l.chars ++ (m.chars ++ rest)) = some l ∧
      ofLexeme? (l, p) = some t ∧ ofLexeme? (m, q) = some u := by
  have inLine := (writtenIn_of_mem ht).2
  obtain ⟨⟨l, p⟩, hl, givesT⟩ := List.mem_filterMap.mp ht
  obtain ⟨⟨m, q⟩, hm, givesU⟩ := List.mem_filterMap.mp hu
  obtain ⟨before, after, split, rfl⟩ := mem_place hl
  obtain ⟨before', after', split', rfl⟩ := mem_place hm
  obtain ⟨positionT, lexeme, -⟩ := of_ofLexeme? givesT
  obtain ⟨positionU, -, -⟩ := of_ofLexeme? givesU
  dsimp only at *
  rw [lexeme, String.toList_ofList] at inLine
  have ends : Position.start.after ((before ++ [l]).flatMap Lexeme.chars) =
      Position.start.after (before'.flatMap Lexeme.chars) := by
    rw [List.flatMap_append, Position.after_append, List.flatMap_singleton,
      Position.after_inLine inLine, ← positionU, h, positionT, lexeme, String.length_ofList]
  have next := eq_of_after (by rw [split]; simp) (by rw [split']; exact List.prefix_append _ _) ends
  rw [← next, List.append_assoc, List.singleton_append] at split'
  exact ⟨l, m, _, _, _, first?_of_segment split', givesT, givesU⟩

/-! ## Numbers with letters behind them -/

namespace Lexeme

def Form.isNumber (form : Form) : Bool := form ∈ [float, integer]

theorem Form.not_admits_letter {form : Form} (number : form.isNumber) {c : Char}
    (hc : isLetter c) : form.pattern.admits c = false := by
  have digit := not_isDigit_of_isLetter hc
  have other {d : Char} (hd : isLetter d = false) : c ≠ d := by
    rintro rfl
    rw [hd] at hc
    cases hc
  cases form <;> first
    | exact absurd number (by decide)
    | simp [Form.pattern, Pattern.optional, Pattern.exactly, Pattern.oneOrMore, Pattern.admits,
        among_digits, digit, other (d := '-') (by decide), other (d := ';') (by decide)]

/-- But for its sign, a number has figures only. -/
theorem isFigure_of_number {l : Lexeme} {s : List Char} (h : first? s = some l)
    (number : l.form.isNumber) (unsigned : l.chars.head? ≠ some '-') :
    ∀ c ∈ l.chars, isFigure c := by
  have spells := spells_of_first? h
  -- Behind the sign, which is not there, the pattern admits nothing else.
  have behind {p : Pattern} (hp : ∀ c, p.admits c → isFigure c)
      (spells : (Pattern.seq (.optional (.exactly ['-'])) p).Spells l.chars) :
      ∀ c ∈ l.chars, isFigure c := by
    obtain ⟨v, hv, u, hu, chars⟩ := Pattern.spells_seq.mp spells
    rcases Pattern.spells_either.mp hv with sign | none
    · rw [chars, Pattern.spells_exactly.mp sign] at unsigned
      exact absurd rfl unsigned
    · cases none
      rw [chars, List.nil_append]
      exact fun c hc => hp c (Pattern.admits_of_spells hu hc)
  have digit {c : Char} (h : c.isDigit) : isFigure c := by rw [isFigure, h, Bool.true_or]
  cases hf : l.form <;> rw [hf] at spells number <;> try exact absurd number (by decide)
  case integer =>
    refine behind (fun c hc => digit ?_) spells
    simpa [Pattern.oneOrMore, Pattern.admits, among_digits] using hc
  case float =>
    refine behind (fun c hc => ?_) spells
    simp only [Pattern.oneOrMore, Pattern.exactly, Pattern.admits, among_digits, Bool.or_self,
      Bool.or_false, Bool.or_eq_true, decide_eq_true_eq] at hc
    rcases hc with hc | rfl | hc
    · exact digit hc
    · decide
    · exact digit hc

/-- A number that letters come right behind is a lexeme only with a sign. -/
theorem signed_of_first? {l : Lexeme} {c : Char} {rest : List Char}
    (first : first? (l.chars ++ c :: rest) = some l) (number : l.form.isNumber)
    (letter : isLetter c) : l.chars.head? = some '-' := by
  by_contra unsigned
  have figures := isFigure_of_number first number unsigned
  obtain ⟨before, after, order, earlier, -⟩ := preferred_iff.mpr first
  have tried : Form.malformed ∈ before := by
    cases before with
    | nil =>
      obtain ⟨form, -⟩ := List.cons.inj order
      rw [← form] at number
      cases number
    | cons form before =>
      rw [← (List.cons.inj order).1]
      exact List.mem_cons_self
  have malformed : Form.malformed.pattern.Spells (l.chars ++ [c]) := by
    rw [Form.pattern, among_figures, among_letters_last]
    exact .seq (Pattern.spells_oneOrMore.mpr ⟨(begins_of_first? first).2, figures⟩)
      (Pattern.spells_oneOrMore.mpr ⟨by simp, by simpa using letter⟩)
  exact earlier .malformed tried (l.chars ++ [c]) ⟨rest, by simp⟩ malformed

/-- With a sign it stays one. -/
theorem first?_of_signed {l : Lexeme} {c : Char} {rest : List Char}
    (alone : first? l.chars = some l) (number : l.form.isNumber)
    (signed : l.chars.head? = some '-') (letter : isLetter c) :
    first? (l.chars ++ c :: rest) = some l := by
  have within {form : Form} {v : List Char} (hf : form.isNumber) (hv : v <+: l.chars ++ c :: rest)
      (spells : form.pattern.Spells v) : v <+: l.chars := by
    refine begins_of_not_mem hv fun d hd mem => ?_
    cases hd
    have admits := Pattern.admits_of_spells spells mem
    rw [Form.not_admits_letter hf letter] at admits
    cases admits
  have token : l.form = .text ∨ l.form.isTight := by
    revert number
    cases l.form <;> decide
  obtain ⟨before, after, order, earlier, longest⟩ := preferred_iff.mpr alone
  refine preferred_iff.mp ⟨before, after, order, fun tried ht v hv spells => ?_,
    List.prefix_append _ _, longest.spells,
    fun v hv spells => (within number hv spells).length_le⟩
  by_cases hf : tried.isNumber
  · exact earlier tried ht v (within hf hv spells) spells
  -- No other form that is tried before begins with a sign.
  cases v with
  | nil => exact earlier tried ht [] List.nil_prefix spells
  | cons d v =>
    obtain ⟨chars, hc⟩ := List.head?_eq_some_iff.mp signed
    rw [hc, List.cons_append, List.cons_prefix_cons] at hv
    obtain rfl := hv.1
    rcases tried_before order ht token with tight | rfl | ⟨rfl, -⟩
    · have admits := Pattern.admits_of_spells spells List.mem_cons_self
      cases tried <;> first
        | exact absurd tight (by decide)
        | exact hf rfl
        | exact absurd admits (by decide)
    · have mark := begins_commentMark spells
      rw [show commentMark = 'm' :: "uchoTexto:".toList by decide, List.cons_prefix_cons] at mark
      exact absurd mark.1 (by decide)
    · cases (marks_of_spells spells).1

end Lexeme

/-! ## Tokens -/

namespace Token

theorem isNumber_of_kind? {l : Lexeme} {kind : Kind} (hk : l.kind? = some kind)
    (number : (kind = .integer || kind = .float) = true) : l.form.isNumber := by
  have words : ∀ p ∈ Kind.reservedWords, p.2 ∉ [Kind.integer, Kind.float] := by decide
  cases hf : l.form <;> simp only [kind?, hf, Option.some.injEq, reduceCtorEq] at hk <;> subst hk
  case word =>
    cases hr : Kind.ofReserved? (String.ofList l.chars) with
    | none =>
      rw [hr] at number
      cases number
    | some k =>
      have other := words _ (mem_reservedWords hr)
      rw [hr] at number
      simp_all
  case float | integer => rfl
  all_goals cases number

/-- In a scan, only a number with a sign has a word right behind it. -/
theorem isSigned_of_touches {source : String} {tokens : List Token}
    (h : scan source = .ok tokens) {t u : Token} (ht : t ∈ tokens) (hu : u ∈ tokens)
    (number : t.isNumber) (touches : t.Touches u) (letter : u.startsWithLetter) : t.isSigned := by
  rw [← list_of_scan h] at ht hu
  obtain ⟨l, m, rest, p, q, first, givesT, givesU⟩ := lexemes_of_touches ht hu touches
  obtain ⟨kind, hk, rfl⟩ := Option.map_eq_some_iff.mp givesT
  obtain ⟨-, lexeme, -⟩ := of_ofLexeme? givesU
  rw [startsWithLetter, lexeme, String.toList_ofList] at letter
  cases hm : m.chars with
  | nil =>
    rw [hm] at letter
    cases letter
  | cons c cs =>
    rw [hm] at letter first
    have sign := signed_of_first? first (isNumber_of_kind? hk number) letter
    rw [isSigned, String.toList_ofList, decide_eq_true_eq]
    exact sign

/-- A word right behind a number with a sign is scanned as it is alone. -/
theorem scan_signed {a b : String} {ts us : List Token} (ha : scan a = .ok ts)
    (hb : scan b = .ok us) {t u : Token} (ht : t ∈ ts) (hu : u ∈ us) (number : t.isNumber)
    (signed : t.isSigned) (letter : u.startsWithLetter) :
    scan (t.lexeme ++ u.lexeme) = .ok [{ t with position := .start },
      { u with position := ⟨1, 1 + t.lexeme.length⟩ }] := by
  obtain ⟨l, p, aloneL, givesT, recognizedT⟩ := lexeme_of_scan ha ht
  obtain ⟨m, q, aloneM, givesU, recognizedU⟩ := lexeme_of_scan hb hu
  obtain ⟨j, hj, rfl⟩ := Option.map_eq_some_iff.mp givesT
  obtain ⟨k, hk, rfl⟩ := Option.map_eq_some_iff.mp givesU
  rw [isSigned, String.toList_ofList, decide_eq_true_eq] at signed
  rw [startsWithLetter, String.toList_ofList] at letter
  have form := isNumber_of_kind? hj number
  have first : first? (l.chars ++ m.chars) = some l := by
    cases hm : m.chars with
    | nil =>
      rw [hm] at letter
      cases letter
    | cons c cs =>
      rw [hm] at letter
      exact first?_of_signed aloneL form signed letter
  have inLine : '\n' ∉ l.chars := by
    rcases newline_or_inLine aloneL with ⟨newline, -⟩ | ⟨-, inLine⟩
    · rw [newline] at form
      cases form
    · exact inLine
  have segments : segment (l.chars ++ m.chars) = [l, m] := by
    rw [segment_of_first? first, List.drop_left, segment_of_first? aloneM, List.drop_length,
      segment_nil]
  have tokens : list (String.ofList l.chars ++ String.ofList m.chars) =
      [⟨j, String.ofList l.chars, .start⟩,
        ⟨k, String.ofList m.chars, ⟨1, 1 + (String.ofList l.chars).length⟩⟩] := by
    rw [list, String.toList_append, String.toList_ofList, String.toList_ofList, segments,
      String.length_ofList]
    simp [place, ofLexeme?, hj, hk, Position.after_inLine inLine, Position.start]
  have recognized : ∀ t ∈ list (String.ofList l.chars ++ String.ofList m.chars),
      t.kind ≠ .unrecognized := by
    rw [tokens]
    simpa using ⟨recognizedT, recognizedU⟩
  rw [scan_of_recognized recognized, tokens]

end Token

/-- A word stands right behind a number only where the number has a sign; and behind a number with a
sign each word can stand, as if there were a blank between them. -/
theorem scan_glued {source : String} {tokens : List Token} (h : scan source = .ok tokens)
    {t : Token} (ht : t ∈ tokens) (number : t.isNumber) :
    (∀ u ∈ tokens, t.Touches u → u.startsWithLetter → t.isSigned) ∧
      (t.isSigned → ∀ other us, scan other = .ok us → ∀ u ∈ us, u.startsWithLetter →
        scan (t.lexeme ++ u.lexeme) = .ok [{ t with position := .start },
          { u with position := ⟨1, 1 + t.lexeme.length⟩ }]) :=
  ⟨fun _ hu touches letter => Token.isSigned_of_touches h ht hu number touches letter,
    fun signed _ _ hb _ hu letter => Token.scan_signed h hb ht hu number signed letter⟩

/-- The fraction and the mark behind it are two tokens, as they are with a blank between them. -/
theorem scan_glued_fraction :
    scan "-9;5 xD" = .ok [⟨.float, "-9;5", ⟨1, 1⟩⟩, ⟨.punctuation, "xD", ⟨1, 6⟩⟩] ∧
      scan "-9;5xD" = .ok [⟨.float, "-9;5", ⟨1, 1⟩⟩, ⟨.punctuation, "xD", ⟨1, 5⟩⟩] ∧
      Token.isSigned ⟨.float, "-9;5", ⟨1, 1⟩⟩ := by
  have apart : scan "-9;5 xD" = .ok [⟨.float, "-9;5", ⟨1, 1⟩⟩, ⟨.punctuation, "xD", ⟨1, 6⟩⟩] := rfl
  have glued : scan ("-9;5" ++ "xD") = _ := (scan_glued apart (.head _) rfl).2 (by decide) _ _ apart
    ⟨.punctuation, "xD", ⟨1, 6⟩⟩ (.tail _ (.head _)) (by decide)
  exact ⟨apart, glued, (scan_glued glued (.head _) rfl).1
    ⟨.punctuation, "xD", ⟨1, 5⟩⟩ (.tail _ (.head _)) rfl (by decide)⟩

/-- So it is not so that a word right behind a number always makes a scan fail. -/
theorem scan_glued_lives : ¬ ∀ source tokens, scan source = .ok tokens → ∀ t ∈ tokens,
    ∀ u ∈ tokens, t.isNumber → t.Touches u → u.startsWithLetter = false := by
  intro never
  have scanned : scan "-9lives" =
      .ok [⟨.integer, "-9", ⟨1, 1⟩⟩, ⟨.identifier, "lives", ⟨1, 3⟩⟩] := rfl
  cases never _ _ scanned ⟨.integer, "-9", ⟨1, 1⟩⟩ (by simp) ⟨.identifier, "lives", ⟨1, 3⟩⟩
    (by simp) rfl rfl

end Mamuth
