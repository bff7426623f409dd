-- Words on lines of their own are scanned as they stand. A word that is spelled as its
-- kind wants it is one lexeme, whatever line comes next, so that a text with one word on
-- each line has these words as its tokens.
import Mamuth.Scan
import Mamuth.Proofs.Tiling

namespace Mamuth

namespace Lexeme

/-! ## Spelling -/

/-- A letter, and letters and digits after it. -/
def spellsWord : List Char → Bool
  | c :: cs => isLetter c && cs.all isWordChar
  | [] => false

def spellsDigits (w : List Char) : Bool := w ≠ [] && w.all Char.isDigit

/-- Digits, with a minus sign or without. -/
def spellsInteger : List Char → Bool
  | '-' :: w => spellsDigits w
  | w => spellsDigits w

/-- An integer, the mark of the fraction, and digits. -/
def spellsFloat (w : List Char) : Bool :=
  spellsInteger (w.takeWhile (· ≠ ';')) && spellsDigits (w.dropWhile (· ≠ ';')).tail

/-- Anything on one line between two text marks. -/
def spellsText : List Char → Bool
  | c :: cs => c = textMark && cs.getLast? = some textMark && !cs.contains '\n'
  | [] => false

end Lexeme

/-- Whether a text is spelled as a leaf of the kind wants it. -/
def Token.Kind.allows : Token.Kind → String → Bool
  | identifier, s =>
    Lexeme.spellsWord s.toList && ofReserved? s = none && !"xD".toList.isPrefixOf s.toList
  | integer, s => Lexeme.spellsInteger s.toList
  | float, s => Lexeme.spellsFloat s.toList
  | text, s => Lexeme.spellsText s.toList
  | k, s => k ∈ [boolean, operator, comparator, logicalOperator] && ofReserved? s = some k

namespace Lexeme

/-! ## Characters -/

/-- The letters come after the digits. -/
theorem not_isDigit_of_isLetter {c : Char} (h : isLetter c) : c.isDigit = false := by
  have beyond {low : Char} (hc : low.val ≤ c.val) (hl : '9'.toNat < low.toNat) :
      c.isDigit = false := by
    have above : low.toNat ≤ c.toNat := UInt32.le_iff_toNat_le.mp hc
    apply Bool.eq_false_iff.mpr
    intro digit
    have := (Char.isDigit_iff_toNat.mp digit).2
    omega
  rcases (Bool.or_eq_true _ _).mp h with letter | mark
  · rcases (Bool.or_eq_true _ _).mp letter with upper | lower
    · exact beyond (of_decide_eq_true upper).1 (by decide)
    · exact beyond (of_decide_eq_true ((Bool.and_eq_true _ _).mp lower).1) (by decide)
  · rw [of_decide_eq_true mark]
    decide

theorem not_isFigure_of_isLetter {c : Char} (h : isLetter c) : isFigure c = false := by
  rw [isFigure, not_isDigit_of_isLetter h]
  apply decide_eq_false
  rintro rfl
  exact absurd h (by decide)

/-- A text that can follow the last word of a line. -/
def EndsLine (r : List Char) : Prop := ∀ c ∈ r.head?, c = '\n'

theorem endsLine_newline (r : List Char) : EndsLine ('\n' :: r) := by
  intro c hc
  exact (Option.some.inj hc).symm

/-- A text that a run does not go into. -/
def Stops (test : Char → Bool) (r : List Char) : Prop := ∀ c ∈ r.head?, test c = false

theorem EndsLine.stops {test : Char → Bool} {r : List Char} (hr : EndsLine r)
    (hn : test '\n' = false) : Stops test r := by
  intro c hc
  rw [hr c hc, hn]

theorem takeWhile_append {test : Char → Bool} {w r : List Char} (hw : w.all test)
    (hs : Stops test r) : (w ++ r).takeWhile test = w := by
  rw [List.takeWhile_append_of_pos (List.all_eq_true.mp hw)]
  cases r with
  | nil => simp
  | cons c r => simp [hs c rfl]

theorem run?_append {test : Char → Bool} {w r : List Char} (hw : w.all test) (hne : w ≠ [])
    (hs : Stops test r) : run? test (w ++ r) = some w := by
  obtain ⟨c, cs, rfl⟩ := List.exists_cons_of_ne_nil hne
  rw [run?, takeWhile_append hw hs]

theorem run?_of_stops {test : Char → Bool} {r : List Char} (hs : Stops test r) :
    run? test r = none := by
  have : r.takeWhile test = [] := takeWhile_append (w := []) rfl hs
  rw [run?, this]

theorem run?_cons_none {test : Char → Bool} {c : Char} (h : test c = false) (cs : List Char) :
    run? test (c :: cs) = none := by
  simp [run?, h]

/-! ## One word -/

/-- A form is taken where none of those before it fits. -/
theorem first?_of {form : Form} {s w : List Char} (before after : List Form)
    (ho : Form.inOrder = before ++ form :: after) (hb : ∀ f ∈ before, f.longest? s = none)
    (h : form.longest? s = some w) : first? s = some ⟨form, w⟩ := by
  have skipped : before.findSome? (fun f => (f.longest? s).map (Lexeme.mk f)) = none := by
    rw [List.findSome?_eq_none_iff]
    intro f hf
    rw [hb f hf]
    rfl
  rw [first?, ho, List.findSome?_append, skipped, Option.none_or, List.findSome?_cons, h]
  rfl

/-- The word is taken whole wherever its line ends with it, and it gives a token of the kind. -/
def Alone (w : String) (k : Token.Kind) : Prop :=
  ∃ form, (Lexeme.mk form w.toList).kind? = some k ∧ k ≠ .unrecognized ∧
    ∀ r, EndsLine r → first? (w.toList ++ r) = some ⟨form, w.toList⟩

/-- A beginning that breaks off a word ends the word there. -/
theorem not_begins {w r v t : List Char} {x : Char} (hw : w.all isWordChar)
    (hr : EndsLine r) (hv : v.all isWordChar) (hx : isWordChar x = false) (hn : x ≠ '\n') :
    ¬ (v ++ x :: t).isPrefixOf (w ++ r) := by
  intro h
  obtain ⟨u, hu⟩ := List.isPrefixOf_iff_prefix.mp h
  rw [List.append_assoc, List.cons_append] at hu
  have same : v = w := by
    have := congrArg (List.takeWhile isWordChar) hu
    rw [takeWhile_append hw (hr.stops (by decide)),
      List.takeWhile_append_of_pos (List.all_eq_true.mp hv)] at this
    simpa [hx] using this
  rw [same] at hu
  have rest := List.append_cancel_left hu
  rw [← rest] at hr
  exact hn (hr x rfl)

theorem not_xD {w r : List Char} (hw : "xD".toList.isPrefixOf w = false) (hne : w ≠ [])
    (hr : EndsLine r) : ¬ "xD".toList.isPrefixOf (w ++ r) := by
  rcases w with _ | ⟨c, _ | ⟨d, cs⟩⟩
  · exact absurd rfl hne
  · cases r with
    | nil => simp
    | cons d r =>
      obtain rfl := hr d rfl
      simp
  · exact fun h => Bool.eq_false_iff.mp hw h

theorem integer?_cons_none {c : Char} (hc : c ≠ '-') (hd : c.isDigit = false) (cs : List Char) :
    integer? (c :: cs) = none := by
  simp [integer?, sign, hc, run?_cons_none hd]

theorem first?_word {c : Char} {cs r : List Char} (hw : spellsWord (c :: cs))
    (hx : "xD".toList.isPrefixOf (c :: cs) = false) (hr : EndsLine r) :
    first? (c :: cs ++ r) = some ⟨.word, c :: cs⟩ := by
  rw [spellsWord, Bool.and_eq_true] at hw
  obtain ⟨hc, hcs⟩ := hw
  have other {x : Char} (h : isLetter x = false) : c ≠ x := by
    rintro rfl
    rw [h] at hc
    cases hc
  have all : (c :: cs).all isWordChar := by
    rw [List.all_cons, hcs, Bool.and_true, isWordChar, hc, Bool.true_or]
  have malformed : Form.malformed.longest? (c :: cs ++ r) = none := by
    simp [Form.longest?, run?_cons_none (not_isFigure_of_isLetter hc)]
  have comment : Form.comment.longest? (c :: cs ++ r) = none :=
    if_neg (not_begins (v := "muchoTexto".toList) all hr (by decide) (by decide) (by decide))
  have text : Form.text.longest? (c :: cs ++ r) = none :=
    if_neg (other (by decide))
  have punctuation : Form.punctuation.longest? (c :: cs ++ r) = none := by
    rw [Form.longest?, List.find?_eq_none]
    intro m hm
    simp only [punctuationMarks, List.map_cons, List.map_nil, List.mem_cons, List.not_mem_nil,
      or_false] at hm
    rcases hm with rfl | rfl | rfl | rfl | rfl | rfl | rfl
    · exact not_xD hx (by simp) hr
    · exact not_begins (v := ['v']) all hr (by decide) (by decide) (by decide)
    all_goals exact not_begins (v := []) all hr (by decide) (by decide) (by decide)
  have noInteger : integer? (c :: cs ++ r) = none :=
    integer?_cons_none (other (by decide)) (not_isDigit_of_isLetter hc) _
  have float : Form.float.longest? (c :: cs ++ r) = none := by
    rw [Form.longest?, float?, noInteger]
    rfl
  have word : Form.word.longest? (c :: cs ++ r) = some (c :: cs) := by
    show (if isLetter c then some (c :: (cs ++ r).takeWhile isWordChar) else none) = _
    rw [if_pos hc, takeWhile_append hcs (hr.stops (by decide))]
  refine first?_of [.malformed, .comment, .text, .punctuation, .float, .integer] _ rfl ?_ word
  simp only [List.forall_mem_cons]
  exact ⟨malformed, comment, text, punctuation, float, noInteger, by simp⟩

/-! ### Numbers -/

/-- What a number can start with. -/
def startsNumber (c : Char) : Bool := c.isDigit || c = '-'

theorem not_begins_of_number {c x : Char} (hc : startsNumber c) (hx : startsNumber x = false)
    (v t : List Char) : (x :: v).isPrefixOf (c :: t) = false := by
  have other : x ≠ c := by
    rintro rfl
    rw [hx] at hc
    cases hc
  rw [List.isPrefixOf_cons_cons, beq_false_of_ne other, Bool.false_and]

/-- A digit or a minus sign starts no comment, no text and no mark. -/
theorem none_of_number {c : Char} (hc : startsNumber c) (t : List Char) :
    Form.comment.longest? (c :: t) = none ∧ Form.text.longest? (c :: t) = none ∧
      Form.punctuation.longest? (c :: t) = none := by
  refine ⟨?_, ?_, ?_⟩
  · have : commentMark.isPrefixOf (c :: t) = false :=
      not_begins_of_number hc (x := 'm') (by decide) "uchoTexto:".toList t
    rw [Form.longest?, this]
    rfl
  · have : c ≠ textMark := by
      rintro rfl
      exact absurd hc (by decide)
    exact if_neg this
  · rw [Form.longest?, List.find?_eq_none]
    intro m hm
    simp only [punctuationMarks, List.map_cons, List.map_nil, List.mem_cons, List.not_mem_nil,
      or_false] at hm
    rw [Bool.not_eq_true]
    rcases hm with rfl | rfl | rfl | rfl | rfl | rfl | rfl
    · exact not_begins_of_number hc (x := 'x') (by decide) ['D'] t
    · exact not_begins_of_number hc (x := 'v') (by decide) [':'] t
    · exact not_begins_of_number hc (x := '(') (by decide) [] t
    · exact not_begins_of_number hc (x := ')') (by decide) [] t
    · exact not_begins_of_number hc (x := '.') (by decide) [] t
    · exact not_begins_of_number hc (x := ',') (by decide) [] t
    · exact not_begins_of_number hc (x := '#') (by decide) [] t

/-- Digits with a sign or without. -/
theorem exists_of_spellsInteger {w : List Char} (h : spellsInteger w) :
    ∃ minus digits, w = minus ++ digits ∧ (minus = [] ∨ minus = ['-']) ∧ digits ≠ [] ∧
      digits.all Char.isDigit := by
  unfold spellsInteger at h
  split at h
  · rename_i digits
    rw [spellsDigits, Bool.and_eq_true, decide_eq_true_eq] at h
    exact ⟨['-'], digits, rfl, Or.inr rfl, h.1, h.2⟩
  · rw [spellsDigits, Bool.and_eq_true, decide_eq_true_eq] at h
    exact ⟨[], w, rfl, Or.inl rfl, h.1, h.2⟩

section

variable {minus digits : List Char} (hm : minus = [] ∨ minus = ['-']) (hne : digits ≠ [])
  (hd : digits.all Char.isDigit)
include hm hne hd

theorem exists_startsNumber (r : List Char) :
    ∃ c t, startsNumber c ∧ minus ++ digits ++ r = c :: t := by
  obtain ⟨c, cs, rfl⟩ := List.exists_cons_of_ne_nil hne
  rcases hm with rfl | rfl
  · rw [List.all_cons, Bool.and_eq_true] at hd
    exact ⟨c, cs ++ r, by rw [startsNumber, hd.1, Bool.true_or], rfl⟩
  · exact ⟨'-', c :: cs ++ r, by decide, rfl⟩

theorem integer?_append {r : List Char} (hs : Stops Char.isDigit r) :
    integer? (minus ++ digits ++ r) = some (minus ++ digits) := by
  have run := run?_append hd hne hs
  rw [List.append_assoc]
  rcases hm with rfl | rfl
  · have : sign (digits ++ r) = [] := by
      obtain ⟨c, cs, rfl⟩ := List.exists_cons_of_ne_nil hne
      rw [List.all_cons, Bool.and_eq_true] at hd
      have : c ≠ '-' := by
        rintro rfl
        exact absurd hd.1 (by decide)
      simp [sign, this]
    simp [integer?, this, run]
  · simp [integer?, sign, run]

/-- With the rest of its characters, a number is not malformed. -/
theorem malformed_of_number {f r : List Char} (hf : f.all isFigure) (hr : EndsLine r) :
    Form.malformed.longest? (minus ++ digits ++ (f ++ r)) = none := by
  rw [List.append_assoc]
  rcases hm with rfl | rfl
  · have figures : (digits ++ f).all isFigure := by
      rw [List.all_append, hf, Bool.and_true, List.all_eq_true]
      intro c hc
      rw [isFigure, List.all_eq_true.mp hd c hc, Bool.true_or]
    have run := run?_append figures (by simp [hne]) (hr.stops (by decide))
    have stops : Stops isLetter r := hr.stops (by decide)
    rw [List.append_assoc] at run
    simp [Form.longest?, run, run?_of_stops stops]
  · simp [Form.longest?, run?_cons_none (show isFigure '-' = false by decide)]

end

theorem float?_of_fraction {w rest : List Char} (h : integer? (w ++ ';' :: rest) = some w) :
    float? (w ++ ';' :: rest) =
      (run? Char.isDigit rest).map fun digits => w ++ ';' :: digits := by
  simp only [float?, h, Option.bind_eq_bind, Option.bind_some, List.drop_left]
  cases run? Char.isDigit rest <;> rfl

theorem float?_of_integer? {w r : List Char} (h : integer? (w ++ r) = some w)
    (hr : EndsLine r) : float? (w ++ r) = none := by
  simp only [float?, h, Option.bind_eq_bind, Option.bind_some, List.drop_left]
  rcases r with _ | ⟨c, r⟩
  · rfl
  · obtain rfl := hr c rfl
    rfl

theorem first?_integer {w r : List Char} (hw : spellsInteger w) (hr : EndsLine r) :
    first? (w ++ r) = some ⟨.integer, w⟩ := by
  obtain ⟨minus, digits, rfl, hm, hne, hd⟩ := exists_of_spellsInteger hw
  obtain ⟨c, t, hc, ht⟩ := exists_startsNumber hm hne hd r
  have malformed := malformed_of_number hm hne hd (f := []) rfl hr
  have integer := integer?_append hm hne hd (hr.stops (by decide))
  have float := float?_of_integer? integer hr
  obtain ⟨comment, text, punctuation⟩ := none_of_number hc t
  rw [← ht] at comment text punctuation
  refine first?_of [.malformed, .comment, .text, .punctuation, .float] _ rfl ?_ integer
  simp only [List.forall_mem_cons]
  exact ⟨malformed, comment, text, punctuation, float, by simp⟩

theorem exists_of_spellsFloat {w : List Char} (h : spellsFloat w) :
    ∃ minus digits more, w = minus ++ digits ++ ';' :: more ∧ (minus = [] ∨ minus = ['-']) ∧
      digits ≠ [] ∧ digits.all Char.isDigit ∧ more ≠ [] ∧ more.all Char.isDigit := by
  rw [spellsFloat, Bool.and_eq_true] at h
  obtain ⟨minus, digits, hw, hm, hne, hd⟩ := exists_of_spellsInteger h.1
  have fraction := h.2
  rw [spellsDigits, Bool.and_eq_true, decide_eq_true_eq] at fraction
  cases ht : w.dropWhile (· ≠ ';') with
  | nil =>
    rw [ht] at fraction
    exact absurd rfl fraction.1
  | cons c more =>
    rw [ht] at fraction
    have hc : c = ';' := by
      have := List.head?_dropWhile_not (fun c => decide (c ≠ ';')) w
      rw [ht] at this
      simpa using this
    subst hc
    refine ⟨minus, digits, more, ?_, hm, hne, hd, fraction.1, fraction.2⟩
    rw [← hw, ← ht, List.takeWhile_append_dropWhile]

theorem first?_float {w r : List Char} (hw : spellsFloat w) (hr : EndsLine r) :
    first? (w ++ r) = some ⟨.float, w⟩ := by
  obtain ⟨minus, digits, more, rfl, hm, hne, hd, hne', hd'⟩ := exists_of_spellsFloat hw
  obtain ⟨c, t, hc, ht⟩ := exists_startsNumber hm hne hd (';' :: more ++ r)
  have figures : (';' :: more).all isFigure := by
    rw [List.all_cons, Bool.and_eq_true, List.all_eq_true]
    refine ⟨by decide, fun c hc => ?_⟩
    rw [isFigure, List.all_eq_true.mp hd' c hc, Bool.true_or]
  have malformed := malformed_of_number hm hne hd figures hr
  have stops : Stops Char.isDigit (';' :: more ++ r) := by
    intro c hc
    cases hc
    decide
  have float : Form.float.longest? (minus ++ digits ++ (';' :: more ++ r)) =
      some (minus ++ digits ++ ';' :: more) := by
    have fraction : float? (minus ++ digits ++ ';' :: (more ++ r)) = _ :=
      float?_of_fraction (integer?_append hm hne hd stops)
    rw [run?_append hd' hne' (hr.stops (by decide))] at fraction
    exact fraction
  obtain ⟨comment, text, punctuation⟩ := none_of_number hc t
  rw [← ht] at comment text punctuation
  rw [List.append_assoc]
  refine first?_of [.malformed, .comment, .text, .punctuation] _ rfl ?_ float
  simp only [List.forall_mem_cons]
  exact ⟨malformed, comment, text, punctuation, by simp⟩

/-! ### Texts and marks -/

theorem throughLast?_append {mark : Char} (w : List Char) :
    throughLast? mark (w ++ [mark]) = some (w ++ [mark]) := by
  induction w with
  | nil => simp [throughLast?]
  | cons c w ih => simp [throughLast?, ih]

theorem first?_text {w r : List Char} (hw : spellsText w) (hr : EndsLine r) :
    first? (w ++ r) = some ⟨.text, w⟩ := by
  cases w with
  | nil => cases hw
  | cons c cs =>
    simp only [spellsText, Bool.and_eq_true, decide_eq_true_eq, Bool.not_eq_true'] at hw
    obtain ⟨⟨rfl, hlast⟩, hline⟩ := hw
    have whole : line (cs ++ r) = cs := by
      refine takeWhile_append ?_ (hr.stops (by decide))
      rw [List.all_eq_true]
      intro c hc
      apply decide_eq_true
      intro h
      subst h
      rw [List.contains_iff_mem.mpr hc] at hline
      cases hline
    have last : throughLast? textMark cs = some cs := by
      obtain ⟨init, rfl⟩ := List.getLast?_eq_some_iff.mp hlast
      exact throughLast?_append init
    have malformed : Form.malformed.longest? (textMark :: cs ++ r) = none := by
      simp [Form.longest?, run?_cons_none (show isFigure textMark = false by decide)]
    have comment : Form.comment.longest? (textMark :: cs ++ r) = none := by
      have : commentMark.isPrefixOf (textMark :: cs ++ r) = false := rfl
      rw [Form.longest?, this]
      rfl
    have text : Form.text.longest? (textMark :: cs ++ r) = some (textMark :: cs) := by
      show (throughLast? textMark (line (cs ++ r))).map (textMark :: ·) = _
      rw [whole, last]
      rfl
    refine first?_of [.malformed, .comment] _ rfl ?_ text
    simp only [List.forall_mem_cons]
    exact ⟨malformed, comment, by simp⟩

/-! ### Each kind of word -/

theorem mem_reservedWords {s : String} {k : Token.Kind}
    (h : Token.Kind.ofReserved? s = some k) : (s, k) ∈ Token.Kind.reservedWords := by
  obtain ⟨before, after, he, -⟩ := List.lookup_eq_some_iff.mp h
  rw [he]
  exact List.mem_append_right _ List.mem_cons_self

/-- Every reserved word is spelled like a name. -/
theorem spellsWord_reserved : ∀ p ∈ Token.Kind.reservedWords, spellsWord p.1.toList ∧
    "xD".toList.isPrefixOf p.1.toList = false ∧ p.2 ≠ .unrecognized := by
  decide

theorem alone_word {s : String} {k : Token.Kind} (hw : spellsWord s.toList)
    (hx : "xD".toList.isPrefixOf s.toList = false)
    (hk : (Token.Kind.ofReserved? s).getD .identifier = k) (hr : k ≠ .unrecognized) :
    Alone s k := by
  refine ⟨.word, ?_, hr, fun r hr => ?_⟩
  · rw [kind?, String.ofList_toList, hk]
  · cases hs : s.toList with
    | nil =>
      rw [hs] at hw
      cases hw
    | cons c cs =>
      rw [hs] at hw hx
      exact first?_word hw hx hr

theorem alone_reserved {s : String} {k : Token.Kind} (h : Token.Kind.ofReserved? s = some k) :
    Alone s k := by
  obtain ⟨hw, hx, hr⟩ := spellsWord_reserved _ (mem_reservedWords h)
  exact alone_word hw hx (by rw [h]; rfl) hr

/-- What a kind allows is a token of that kind, on a line of its own. -/
theorem alone_of_allows {k : Token.Kind} {s : String} (h : k.allows s) : Alone s k := by
  cases k
  case identifier =>
    simp only [Token.Kind.allows, Bool.and_eq_true, decide_eq_true_eq, Bool.not_eq_true'] at h
    exact alone_word h.1.1 h.2 (by rw [h.1.2]; rfl) (by decide)
  case integer => exact ⟨.integer, rfl, by decide, fun r hr => first?_integer h hr⟩
  case float => exact ⟨.float, rfl, by decide, fun r hr => first?_float h hr⟩
  case text => exact ⟨.text, rfl, by decide, fun r hr => first?_text h hr⟩
  all_goals
    simp only [Token.Kind.allows, Bool.and_eq_true, decide_eq_true_eq] at h
    exact alone_reserved h.2

/-- The marks and the words of the grammar. -/
def fixedWords : List String :=
  ["xD", "v:", "(", ")", ".", ",", "#", "POV", "maracuya", "messirve", "siuuu", "nimodo",
    "whenCuando", "but", "anotado", "jutsu"]

theorem alone_fixed : ∀ w ∈ fixedWords, ∃ k, Alone w k := by
  have mark {w : String} (h : ∀ r, first? (w.toList ++ r) = some ⟨.punctuation, w.toList⟩) :
      ∃ k, Alone w k := ⟨.punctuation, .punctuation, rfl, by decide, fun r _ => h r⟩
  have reserved {w : String} {k : Token.Kind} (h : Token.Kind.ofReserved? w = some k) :
      ∃ k, Alone w k := ⟨k, alone_reserved h⟩
  simp only [fixedWords, List.forall_mem_cons]
  refine ⟨mark fun _ => rfl, mark fun _ => rfl, mark fun _ => rfl, mark fun _ => rfl,
    mark fun _ => rfl, mark fun _ => rfl, mark fun _ => rfl, ?_⟩
  exact ⟨reserved rfl, reserved rfl, reserved rfl, reserved rfl, reserved rfl, reserved rfl,
    reserved rfl, reserved rfl, reserved rfl, by simp⟩

/-! ## Lines of words -/

/-- A text with each word on a line of its own. -/
def lines (ws : List String) : String := String.join (ws.map (· ++ "\n"))

theorem toList_lines_cons (w : String) (ws : List String) :
    (lines (w :: ws)).toList = w.toList ++ '\n' :: (lines ws).toList := by
  simp [lines, String.toList_join]

theorem segment_lines {w : String} {k : Token.Kind} (h : Alone w k) (ws : List String) :
    ∃ l : Lexeme, l.chars = w.toList ∧ l.kind? = some k ∧
      segment (lines (w :: ws)).toList =
        l :: ⟨.newline, ['\n']⟩ :: segment (lines ws).toList := by
  obtain ⟨form, hk, -, hf⟩ := h
  have first := hf ('\n' :: (lines ws).toList) (endsLine_newline _)
  refine ⟨⟨form, w.toList⟩, rfl, hk, ?_⟩
  rw [toList_lines_cons, segment_of_first? first, List.drop_left]
  have newline : first? ('\n' :: (lines ws).toList) = some ⟨.newline, ['\n']⟩ := rfl
  rw [segment_of_first? newline]
  rfl

/-- The tokens of lines of words are the words. -/
theorem tokens_lines (ws : List String) (h : ∀ w ∈ ws, ∃ k, Alone w k) (p : Position) :
    let tokens := (place p (segment (lines ws).toList)).filterMap Token.ofLexeme?
    tokens.map (·.lexeme) = ws ∧ ∀ t ∈ tokens, Alone t.lexeme t.kind := by
  induction ws generalizing p with
  | nil => exact ⟨rfl, by simp [lines, segment_nil, place]⟩
  | cons w ws ih =>
    obtain ⟨⟨k, hk⟩, h⟩ := List.forall_mem_cons.mp h
    obtain ⟨l, hc, hl, hs⟩ := segment_lines hk ws
    obtain ⟨lexemes, alone⟩ := ih h ((p.after l.chars).after ['\n'])
    have token : Token.ofLexeme? (l, p) = some ⟨k, w, p⟩ := by
      rw [Token.ofLexeme?, hl, hc, String.ofList_toList]
      rfl
    have layout (q : Position) : Token.ofLexeme? (⟨.newline, ['\n']⟩, q) = none := rfl
    simp only [hs, place, List.filterMap_cons, token, layout, List.map_cons, lexemes]
    exact ⟨trivial, List.forall_mem_cons.mpr ⟨hk, alone⟩⟩

end Lexeme

/-! ## Scanning -/

theorem scan_of_recognized {source : String}
    (h : ∀ t ∈ Token.list source, t.kind ≠ .unrecognized) :
    scan source = .ok (Token.list source) := by
  have parts : (Token.list source).partition (·.kind = .unrecognized) =
      ([], Token.list source) := by
    rw [List.partition_eq_filter_filter, List.filter_eq_nil_iff.mpr, List.filter_eq_self.mpr]
    · simpa using h
    · simpa using h
  rw [scan, parts]

/-- A text that is one lexeme is scanned as one token. -/
theorem scan_of_first? {w : String} {l : Lexeme} {k : Token.Kind}
    (first : Lexeme.first? w.toList = some l) (whole : l.chars = w.toList) (hk : l.kind? = some k)
    (hr : k ≠ .unrecognized) : scan w = .ok [⟨k, w, .start⟩] := by
  have tokens : Token.list w = [⟨k, w, .start⟩] := by
    rw [Token.list, Lexeme.segment_of_first? first, whole, List.drop_length]
    simp only [Lexeme.segment_nil, Lexeme.place, List.filterMap_cons, List.filterMap_nil,
      Token.ofLexeme?, hk, whole, String.ofList_toList]
    rfl
  rw [scan_of_recognized, tokens]
  rw [tokens, List.forall_mem_singleton]
  exact hr

/-- A word that stands alone is scanned alone. -/
theorem Lexeme.Alone.scan {w : String} {k : Token.Kind} (h : Lexeme.Alone w k) :
    scan w = .ok [⟨k, w, .start⟩] := by
  obtain ⟨form, hk, hr, hf⟩ := h
  have first := hf [] nofun
  rw [List.append_nil] at first
  exact scan_of_first? first rfl hk hr

/-- Words on lines of their own are scanned as they stand. -/
theorem scan_lines (ws : List String) (h : ∀ w ∈ ws, ∃ k, Lexeme.Alone w k) :
    ∃ tokens, scan (Lexeme.lines ws) = .ok tokens ∧ tokens.map (·.lexeme) = ws ∧
      ∀ t ∈ tokens, Lexeme.Alone t.lexeme t.kind := by
  obtain ⟨lexemes, alone⟩ := Lexeme.tokens_lines ws h .start
  refine ⟨Token.list (Lexeme.lines ws), scan_of_recognized ?_, lexemes, alone⟩
  intro t ht
  obtain ⟨form, -, hr, -⟩ := alone t ht
  exact hr

end Mamuth
