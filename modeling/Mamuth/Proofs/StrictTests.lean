-- The parser looks at one thing of a token only, its text or its kind. For the tokens of a scan
-- it could as well look at both: a text has one kind only, and a kind is for texts of one lexical
-- class. So with tests that are stricter the same tokens are the same program, or they have the
-- same error.
import Mamuth.Proofs.MovedTokens

namespace Mamuth

open Lexeme

/-! ## Lexical classes -/

instance (p : Pattern) (w : List Char) : Decidable (p.Spells w) :=
  decidable_of_iff (w ∈ p.takes w) (Pattern.mem_takes.trans (and_iff_right List.prefix_rfl))

theorem Pattern.spells_anyOf {ws : List (List Char)} {w : List Char} :
    (anyOf ws).Spells w ↔ w ∈ ws := by
  induction ws with
  | nil =>
    constructor <;> intro h <;> cases h
  | cons v ws ih => rw [anyOf, spells_either, spells_exactly, ih, List.mem_cons]

namespace Token.Kind

/-- Whether the text is in the lexical class of the kind. Names are the words that are not
reserved; a kind that has no form of its own has reserved words. -/
def Spells : Kind → String → Prop
  | identifier, s => Form.word.pattern.Spells s.toList ∧ ofReserved? s = none
  | integer, s => Form.integer.pattern.Spells s.toList
  | float, s => Form.float.pattern.Spells s.toList
  | text, s => Form.text.pattern.Spells s.toList
  | punctuation, s => Form.punctuation.pattern.Spells s.toList
  | k, s => ofReserved? s = some k

instance (k : Kind) (s : String) : Decidable (k.Spells s) :=
  match k with
  | identifier => inferInstanceAs (Decidable (_ ∧ _))
  | integer | float | text | punctuation => inferInstanceAs (Decidable (Pattern.Spells _ _))
  | operator | logicalOperator | comparator | keyword | conditional | loop | assignment
  | invocation | boolean | unrecognized => inferInstanceAs (Decidable (ofReserved? s = some _))

/-- The kinds of which the texts are not fixed: names, numbers and texts. -/
def isFree (k : Kind) : Bool := k ∈ [identifier, integer, float, text]

/-- A reserved word is in the class of its kind, which is none of these. -/
theorem not_isFree_of_reserved {s : String} {k : Kind} (h : ofReserved? s = some k) :
    ¬ k.isFree ∧ k.Spells s := by
  have fixed : ∀ p ∈ reservedWords, p.2 ∉ [identifier, integer, float, text, punctuation] := by
    decide
  have other := fixed _ (mem_reservedWords h)
  cases k <;> first | (simp at other; done) | exact ⟨by decide, h⟩

end Token.Kind

/-- The tests with what they leave out: a token with the text of a word has to be of the kind that
a scan gives to the word, and one of a kind has to be in the lexical class of the kind. -/
def Terminal.recognizesStrictly : Recognizer
  | word text, token => token.lexeme = text && (word text).kind? = some token.kind
  | kind k, token => token.kind = k && k.Spells token.lexeme

/-! ## Tokens of a scan -/

section

variable {source : String} {tokens : List Token} (h : scan source = .ok tokens)
include h

theorem Token.spells_of_scan {t : Token} (ht : t ∈ tokens) : t.kind.Spells t.lexeme := by
  obtain ⟨⟨form, chars⟩, p, first, given, recognized⟩ := lexeme_of_scan h ht
  have spelled : form.pattern.Spells (String.ofList chars).toList := by
    rw [String.toList_ofList]
    exact spells_of_first? first
  cases form with
  | malformed | stray =>
    cases given
    exact absurd rfl recognized
  | comment | newline | blank => cases given
  | text | punctuation | float | integer =>
    cases given
    exact spelled
  | word =>
    cases given
    dsimp only
    cases hr : Kind.ofReserved? (String.ofList chars) with
    | none => exact ⟨spelled, hr⟩
    | some k => exact (Kind.not_isFree_of_reserved hr).2

/-- What is neither reserved nor a mark is a name, a number or a text, and nothing else is. -/
theorem Token.isFree_iff {t : Token} (ht : t ∈ tokens) :
    t.kind.isFree ↔
      Kind.ofReserved? t.lexeme = none ∧ t.lexeme.toList ∉ punctuationMarks := by
  have spells := spells_of_scan h ht
  constructor
  · intro free
    -- A reserved word and a mark are scanned as such when they are scanned alone.
    refine ⟨?_, fun mark => ?_⟩
    · cases hr : Kind.ofReserved? t.lexeme with
      | none => rfl
      | some k =>
        obtain ⟨u, alone, same⟩ := producible_of_scan h t ht
        rw [(alone_reserved hr).scan] at alone
        cases alone
        rw [← same] at free
        exact absurd free (Kind.not_isFree_of_reserved hr).1
    · obtain ⟨l, p, first, given, -⟩ := lexeme_of_scan h ht
      obtain ⟨k, hk, rfl⟩ := Option.map_eq_some_iff.mp given
      have marks : ∀ w ∈ punctuationMarks, first? w = some ⟨.punctuation, w⟩ := by decide
      rw [String.toList_ofList] at mark
      have punctuation := Option.some.inj (first.symm.trans (marks _ mark))
      rw [punctuation] at hk
      cases hk
      cases free
  · rintro ⟨free, unmarked⟩
    cases hk : t.kind <;> rw [hk] at spells <;> try rfl
    case punctuation => exact absurd (Pattern.spells_anyOf.mp spells) unmarked
    all_goals cases free.symm.trans spells

theorem agreeOn_scan : AgreeOn Terminal.recognizesStrictly Terminal.recognizes tokens := by
  intro t ht x
  apply Bool.eq_iff_iff.mpr
  constructor
  · intro strict
    cases x <;> exact (Bool.and_eq_true_iff.mp strict).1
  · intro seen
    cases x with
    | word text =>
      have same := Terminal.kind?_of_recognizes (Token.producible_of_scan h t ht) seen
      exact Bool.and_eq_true_iff.mpr ⟨seen, decide_eq_true same⟩
    | kind k =>
      obtain rfl : t.kind = k := of_decide_eq_true seen
      exact Bool.and_eq_true_iff.mpr ⟨seen, decide_eq_true (Token.spells_of_scan h ht)⟩

/-- With the stricter tests the tokens of a scan are the same program, or they have the same
error. No name, number or text counts as a word or a mark of the language, and no such word or
mark as one of them. -/
theorem Program.read_strictly :
    Program.read Terminal.recognizesStrictly tokens = Program.ofTokens tokens ∧
      ∀ t ∈ tokens, t.kind.isFree ↔
        Token.Kind.ofReserved? t.lexeme = none ∧ t.lexeme.toList ∉ punctuationMarks :=
  ⟨Program.read_congr (agreeOn_scan h), fun _ => Token.isFree_iff h⟩

end

/-- A text that holds a reserved word is still a text. -/
theorem Program.read_strictly_text : ∃ tokens p,
    scan "x anotado ツPOVツ. maracuya() xD messirve. v:" = .ok tokens ∧ ofTokens tokens = .ok p ∧
    (Program.read Terminal.recognizesStrictly tokens = Program.ofTokens tokens ∧
      ∀ t ∈ tokens, t.kind.isFree ↔
        Token.Kind.ofReserved? t.lexeme = none ∧ t.lexeme.toList ∉ punctuationMarks) := by
  let tokens : List Token :=
    [⟨.identifier, "x", ⟨1, 1⟩⟩, ⟨.assignment, "anotado", ⟨1, 3⟩⟩, ⟨.text, "ツPOVツ", ⟨1, 11⟩⟩,
      ⟨.punctuation, ".", ⟨1, 16⟩⟩, ⟨.keyword, "maracuya", ⟨1, 18⟩⟩, ⟨.punctuation, "(", ⟨1, 26⟩⟩,
      ⟨.punctuation, ")", ⟨1, 27⟩⟩, ⟨.punctuation, "xD", ⟨1, 29⟩⟩, ⟨.keyword, "messirve", ⟨1, 32⟩⟩,
      ⟨.punctuation, ".", ⟨1, 40⟩⟩, ⟨.punctuation, "v:", ⟨1, 42⟩⟩]
  let p : Program :=
    ⟨[⟨⟨"x", ⟨1, 1⟩⟩, .value (.literal .text ⟨"ツPOVツ", ⟨1, 11⟩⟩)⟩], [],
      ⟨⟨1, 18⟩, .last (.return ⟨1, 32⟩ none)⟩⟩
  have scanned : scan "x anotado ツPOVツ. maracuya() xD messirve. v:" = .ok tokens := rfl
  have read : ofTokens tokens = .ok p := rfl
  exact ⟨tokens, p, scanned, read, read_strictly scanned⟩

end Mamuth
