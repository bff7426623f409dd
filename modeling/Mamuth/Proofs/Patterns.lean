-- The patterns of the lexemes, and the choice between them. At each place of a text the first
-- pattern that spells any beginning of what is left takes the longest beginning that it
-- spells. A search that tries the patterns in their order, and takes the first beginning that it
-- comes to, finds the same: in these patterns the longest way comes first.
import Mathlib.Data.List.Forall2
import Mamuth.Proofs.WordLines

namespace Mamuth

/-! ## Patterns -/

/-- A regular expression over characters, which repeats nothing but single characters. -/
inductive Pattern where
  | never
  | nothing
  | one (test : Char → Bool)
  | many (test : Char → Bool)
  | seq (first second : Pattern)
  | either (first second : Pattern)

namespace Pattern

def oneOrMore (test : Char → Bool) : Pattern := seq (one test) (many test)

def optional (p : Pattern) : Pattern := either p nothing

/-- The characters as they stand. -/
def exactly : List Char → Pattern
  | [] => nothing
  | c :: cs => seq (one (· = c)) (exactly cs)

def anyOf : List (List Char) → Pattern
  | [] => never
  | w :: ws => either (exactly w) (anyOf ws)

/-- The language of a pattern. -/
inductive Spells : Pattern → List Char → Prop
  | nothing : Spells nothing []
  | one {test : Char → Bool} {c : Char} (h : test c) : Spells (one test) [c]
  | stop {test : Char → Bool} : Spells (many test) []
  | more {test : Char → Bool} {c : Char} {w : List Char} (h : test c)
      (rest : Spells (many test) w) : Spells (many test) (c :: w)
  | seq {p q : Pattern} {v w : List Char} (first : Spells p v) (second : Spells q w) :
      Spells (seq p q) (v ++ w)
  | left {p q : Pattern} {w : List Char} (h : Spells p w) : Spells (either p q) w
  | right {p q : Pattern} {w : List Char} (h : Spells q w) : Spells (either p q) w

/-- The pattern spells no longer beginning of the text. -/
structure Longest (p : Pattern) (s w : List Char) : Prop where
  begins : w <+: s
  spells : p.Spells w
  longest : ∀ v, v <+: s → p.Spells v → v.length ≤ w.length

/-- The beginnings of a text that a run of characters takes, the longest first. -/
def takesMany (test : Char → Bool) : List Char → List (List Char)
  | [] => [[]]
  | c :: cs => if test c then (takesMany test cs).map (c :: ·) ++ [[]] else [[]]

/-- The beginnings of a text that a search with backtracking comes to, in its order: of a choice
the first side before the second, of a run as much as there is before any less. -/
def takes : Pattern → List Char → List (List Char)
  | never, _ => []
  | nothing, _ => [[]]
  | one _, [] => []
  | one test, c :: _ => if test c then [[c]] else []
  | many test, s => takesMany test s
  | seq p q, s => (p.takes s).flatMap fun v => (q.takes (s.drop v.length)).map (v ++ ·)
  | either p q, s => p.takes s ++ q.takes s

attribute [local grind =] takes

end Pattern

namespace Lexeme

/-- The characters in one of the ranges. -/
def among (ranges : List (Char × Char)) (c : Char) : Bool :=
  ranges.any fun r => r.1 ≤ c && c ≤ r.2

/-- Every character but the newline. -/
def inLine (c : Char) : Bool := c ≠ '\n'

open Pattern in
def Form.pattern : Form → Pattern
  | malformed =>
    seq (oneOrMore (among [('0', '9'), (';', ';')]))
      (oneOrMore (among [('_', '_'), ('A', 'Z'), ('a', 'z')]))
  | comment => seq (exactly "muchoTexto:".toList) (many inLine)
  | text => seq (exactly ['ツ']) (seq (many inLine) (exactly ['ツ']))
  | punctuation =>
    anyOf [['x', 'D'], ['v', ':'], ['('], [')'], ['.'], [','], ['#']]
  | float =>
    seq (optional (exactly ['-'])) (seq (oneOrMore (among [('0', '9')]))
      (seq (exactly [';']) (oneOrMore (among [('0', '9')]))))
  | integer => seq (optional (exactly ['-'])) (oneOrMore (among [('0', '9')]))
  | word =>
    seq (one (among [('A', 'Z'), ('a', 'z'), ('_', '_')]))
      (many (among [('A', 'Z'), ('a', 'z'), ('_', '_'), ('0', '9')]))
  | newline => exactly ['\n']
  | blank => oneOrMore (among [(' ', ' '), ('\t', '\t'), ('\r', '\r')])
  | stray => one inLine

/-- The forms in the order of their precedence. -/
def Form.precedence : List Form :=
  [malformed, comment, text, punctuation, float, integer, word, newline, blank, stray]

/-- The first form whose pattern spells a beginning of the text takes the longest one. -/
def Preferred (s : List Char) (l : Lexeme) : Prop :=
  ∃ before after, Form.precedence = before ++ l.form :: after ∧
    (∀ form ∈ before, ∀ v, v <+: s → ¬ form.pattern.Spells v) ∧
    l.form.pattern.Longest s l.chars

/-- What a search with backtracking comes to first, in the choice between all patterns. -/
def FoundFirst (s : List Char) (l : Lexeme) : Prop :=
  (Form.precedence.flatMap fun form => (form.pattern.takes s).map (Lexeme.mk form)).head? = some l

/-- From its start to its end the text falls into lexemes, each of them picked where the one
before it ends. -/
def Segmented (picks : List Char → Lexeme → Prop) : List Char → List Lexeme → Prop
  | s, [] => s = []
  | s, l :: ls => picks s l ∧ ∃ rest, s = l.chars ++ rest ∧ Segmented picks rest ls

end Lexeme

/-! ## What a search comes to -/

namespace Pattern

variable {test : Char → Bool} {p q : Pattern} {s v w : List Char}

theorem spells_one : (one test).Spells w ↔ ∃ c, test c ∧ w = [c] := by
  constructor
  · rintro ⟨⟩
    exact ⟨_, ‹_›, rfl⟩
  · rintro ⟨c, h, rfl⟩
    exact .one h

theorem spells_many_cons {c : Char} :
    (many test).Spells (c :: w) ↔ test c ∧ (many test).Spells w := by
  constructor
  · rintro ⟨⟩
    exact ⟨‹_›, ‹_›⟩
  · rintro ⟨h, rest⟩
    exact .more h rest

theorem spells_seq : (seq p q).Spells w ↔ ∃ v, p.Spells v ∧ ∃ u, q.Spells u ∧ w = v ++ u := by
  constructor
  · rintro ⟨⟩
    exact ⟨_, ‹_›, _, ‹_›, rfl⟩
  · rintro ⟨v, hv, u, hu, rfl⟩
    exact .seq hv hu

theorem spells_either : (either p q).Spells w ↔ p.Spells w ∨ q.Spells w := by
  constructor
  · rintro ⟨⟩
    · exact .inl ‹_›
    · exact .inr ‹_›
  · rintro (h | h)
    · exact .left h
    · exact .right h

theorem spells_many : (many test).Spells w ↔ ∀ c ∈ w, test c := by
  induction w with
  | nil => exact ⟨fun _ => by simp, fun _ => .stop⟩
  | cons c w ih => rw [spells_many_cons, ih, List.forall_mem_cons]

theorem spells_oneOrMore : (oneOrMore test).Spells w ↔ w ≠ [] ∧ ∀ c ∈ w, test c := by
  rw [oneOrMore, spells_seq]
  constructor
  · rintro ⟨v, hv, u, hu, rfl⟩
    obtain ⟨c, hc, rfl⟩ := spells_one.mp hv
    exact ⟨List.cons_ne_nil c u, List.forall_mem_cons.mpr ⟨hc, spells_many.mp hu⟩⟩
  · rintro ⟨hw, h⟩
    obtain ⟨c, u, rfl⟩ := List.exists_cons_of_ne_nil hw
    rw [List.forall_mem_cons] at h
    exact ⟨[c], .one h.1, u, spells_many.mpr h.2, rfl⟩

theorem mem_takesMany : w ∈ takesMany test s ↔ w <+: s ∧ (many test).Spells w := by
  induction s generalizing w with
  | nil =>
    rw [takesMany, List.mem_singleton, List.prefix_nil]
    constructor
    · rintro rfl
      exact ⟨rfl, .stop⟩
    · exact And.left
  | cons c cs ih =>
    cases w with
    | nil =>
      have : [] ∈ takesMany test (c :: cs) := by
        unfold takesMany
        split <;> simp
      simp [this, Spells.stop]
    | cons d w =>
      rw [List.cons_prefix_cons, spells_many_cons, takesMany]
      by_cases hc : test c
      · rw [if_pos hc, List.mem_append, List.mem_map]
        constructor
        · rintro (⟨v, hv, he⟩ | he)
          · obtain ⟨rfl, rfl⟩ := List.cons.inj he
            exact ⟨⟨rfl, (ih.mp hv).1⟩, hc, (ih.mp hv).2⟩
          · cases List.mem_singleton.mp he
        · rintro ⟨⟨rfl, hw⟩, -, rest⟩
          exact .inl ⟨w, ih.mpr ⟨hw, rest⟩, rfl⟩
      · rw [if_neg hc]
        constructor
        · intro he
          cases List.mem_singleton.mp he
        · rintro ⟨⟨rfl, -⟩, hd, -⟩
          exact absurd hd hc

/-- The search comes to the beginnings of the text that the pattern spells. -/
theorem mem_takes : w ∈ p.takes s ↔ w <+: s ∧ p.Spells w := by
  induction p generalizing s w with
  | never =>
    rw [takes]
    constructor
    · nofun
    · rintro ⟨-, ⟨⟩⟩
  | nothing =>
    rw [takes, List.mem_singleton]
    constructor
    · rintro rfl
      exact ⟨List.nil_prefix, .nothing⟩
    · rintro ⟨-, ⟨⟩⟩
      rfl
  | one test =>
    rw [spells_one]
    cases s with
    | nil =>
      constructor
      · nofun
      · rintro ⟨hw, c, -, rfl⟩
        cases List.prefix_nil.mp hw
    | cons d s =>
      rw [takes]
      constructor
      · intro h
        split at h
        · rw [List.mem_singleton.mp h]
          exact ⟨List.cons_prefix_cons.mpr ⟨rfl, List.nil_prefix⟩, d, ‹_›, rfl⟩
        · cases h
      · rintro ⟨hw, c, hc, rfl⟩
        obtain ⟨rfl, -⟩ := List.cons_prefix_cons.mp hw
        simp [hc]
  | many test => exact mem_takesMany
  | seq p q ihp ihq =>
    simp only [takes, List.mem_flatMap, List.mem_map, ihp, ihq, spells_seq]
    constructor
    · rintro ⟨v, ⟨hv, hp⟩, u, ⟨hu, hq⟩, rfl⟩
      exact ⟨Lexeme.begins_append hv hu, v, hp, u, hq, rfl⟩
    · rintro ⟨hw, v, hp, u, hq, rfl⟩
      obtain ⟨rest, rfl⟩ := hw
      refine ⟨v, ⟨?_, hp⟩, u, ⟨?_, hq⟩, rfl⟩
      · simp
      · simp
  | either p q ihp ihq =>
    rw [takes, List.mem_append, ihp, ihq, spells_either, and_or_left]

theorem spells_exactly : (exactly v).Spells w ↔ w = v := by
  induction v generalizing w with
  | nil =>
    constructor
    · rintro ⟨⟩
      rfl
    · rintro rfl
      exact .nothing
  | cons c v ih =>
    rw [exactly, spells_seq]
    constructor
    · rintro ⟨x, hx, y, hy, rfl⟩
      obtain ⟨d, hd, rfl⟩ := spells_one.mp hx
      rw [ih.mp hy, of_decide_eq_true hd]
      rfl
    · rintro rfl
      exact ⟨[c], .one (decide_eq_true rfl), v, ih.mpr rfl, rfl⟩

/-! ## The ways of the joined patterns -/

theorem takes_seq_one {c : Char} {cs : List Char} :
    (seq (one test) q).takes (c :: cs) = if test c then (q.takes cs).map (c :: ·) else [] := by
  by_cases h : test c <;> simp [takes, h]

theorem takes_seq_assoc (r : Pattern) :
    (seq (seq p q) r).takes s = (seq p (seq q r)).takes s := by
  simp only [takes, List.flatMap_assoc, List.flatMap_map, List.map_flatMap, List.map_map,
    List.length_append, ← List.drop_drop]
  simp only [Function.comp_def, List.append_assoc]

theorem takes_exactly (w s : List Char) :
    (exactly w).takes s = if w.isPrefixOf s then [w] else [] := by
  induction w generalizing s with
  | nil => rfl
  | cons c w ih =>
    cases s with
    | nil => rfl
    | cons d s =>
      rw [exactly, takes_seq_one, ih]
      by_cases hd : d = c
      · by_cases hw : w.isPrefixOf s <;> simp [hd, hw]
      · simp [hd, Ne.symm hd]

theorem takes_exactly_seq (w s : List Char) :
    (seq (exactly w) q).takes s =
      if w.isPrefixOf s then (q.takes (s.drop w.length)).map (w ++ ·) else [] := by
  rw [takes, takes_exactly]
  split <;> simp

theorem takes_many_seq_cons (c : Char) (cs : List Char) :
    (seq (many test) q).takes (c :: cs) =
      if test c then ((seq (many test) q).takes cs).map (c :: ·) ++ q.takes (c :: cs)
      else q.takes (c :: cs) := by
  by_cases hc : test c
  · simp [takes, takesMany, hc, List.flatMap_map, List.map_flatMap, Function.comp_def]
  · simp [takes, takesMany, hc]

/-- A run that leaves nothing for the next pattern to start with goes on to its end. -/
theorem takes_many_seq (hq : ∀ c cs, test c → q.takes (c :: cs) = []) (s : List Char) :
    (seq (many test) q).takes s =
      (q.takes (s.drop (s.takeWhile test).length)).map (s.takeWhile test ++ ·) := by
  induction s with
  | nil => simp [takes, takesMany]
  | cons c cs ih =>
    rw [takes_many_seq_cons]
    by_cases hc : test c
    · simp [ih, hc, hq c cs hc]
    · simp [hc]

theorem takes_run_seq (hq : ∀ c cs, test c → q.takes (c :: cs) = []) (s : List Char) :
    (seq (oneOrMore test) q).takes s =
      match Lexeme.run? test s with
      | some w => (q.takes (s.drop w.length)).map (w ++ ·)
      | none => [] := by
  cases s with
  | nil => rfl
  | cons c cs =>
    rw [oneOrMore, takes_seq_assoc, takes_seq_one, takes_many_seq hq]
    by_cases hc : test c
    · simp [Lexeme.run?, hc]
    · simp [Lexeme.run?, hc]

/-- A sign is taken where there is one, since nothing else starts with it. -/
theorem takes_sign_seq (hq : ∀ cs, q.takes ('-' :: cs) = []) (s : List Char) :
    (seq (optional (exactly ['-'])) q).takes s =
      (q.takes (s.drop (Lexeme.sign s).length)).map (Lexeme.sign s ++ ·) := by
  rw [takes, optional, takes, takes_exactly]
  cases s with
  | nil => simp [takes, Lexeme.sign]
  | cons c cs =>
    by_cases hc : c = '-'
    · simp [takes, Lexeme.sign, hc, hq]
    · simp [takes, Lexeme.sign, hc, Ne.symm hc]

/-! ## The longest way first -/

/-- Longer ways stand before shorter ones. -/
def Falling (ws : List (List Char)) : Prop := ws.Pairwise fun v w => w.length < v.length

theorem Falling.map_append {ws : List (List Char)} (h : Falling ws) (v : List Char) :
    Falling (ws.map (v ++ ·)) := by
  refine List.pairwise_map.mpr (h.imp fun hl => ?_)
  rw [List.length_append, List.length_append]
  omega

theorem falling_takesMany (test : Char → Bool) (s : List Char) : Falling (takesMany test s) := by
  induction s with
  | nil => exact List.pairwise_singleton _ _
  | cons c cs ih =>
    unfold takesMany
    split
    · refine List.pairwise_append.mpr ⟨ih.map_append [c], List.pairwise_singleton _ _, ?_⟩
      intro v hv w hw
      obtain ⟨u, -, rfl⟩ := List.mem_map.mp hv
      rw [List.mem_singleton.mp hw]
      exact Nat.succ_pos _
    · exact List.pairwise_singleton _ _

theorem head?_takesMany (test : Char → Bool) (s : List Char) :
    (takesMany test s).head? = some (s.takeWhile test) := by
  induction s with
  | nil => rfl
  | cons c cs ih =>
    by_cases hc : test c <;> simp [takesMany, hc, ih]

/-- A search comes first to the beginning that the function gives, and all others that it comes
to are shorter. -/
structure Gets (p : Pattern) (longest? : List Char → Option (List Char)) : Prop where
  head (s : List Char) : (p.takes s).head? = longest? s
  falling (s : List Char) : Falling (p.takes s)

theorem Gets.congr {f g : List Char → Option (List Char)} (h : p.Gets f)
    (he : ∀ s, f s = g s) : p.Gets g :=
  ⟨fun s => (h.head s).trans (he s), h.falling⟩

theorem gets_many (test : Char → Bool) : (many test).Gets fun s => some (s.takeWhile test) :=
  ⟨head?_takesMany test, falling_takesMany test⟩

theorem gets_exactly (w : List Char) :
    (exactly w).Gets fun s => if w.isPrefixOf s then some w else none := by
  constructor <;> intro s <;> rw [takes_exactly] <;> split
  · rfl
  · rfl
  · exact List.pairwise_singleton _ _
  · exact List.Pairwise.nil

variable {f : List Char → Option (List Char)}

theorem Gets.after_one (test : Char → Bool) (h : q.Gets f) :
    (seq (one test) q).Gets fun s =>
      match s with
      | c :: cs => if test c then (f cs).map (c :: ·) else none
      | [] => none := by
  constructor <;> rintro (_ | ⟨c, cs⟩)
  · rfl
  · rw [takes_seq_one]
    by_cases hc : test c
    · simp only [if_pos hc, List.head?_map, h.head]
    · simp only [if_neg hc, List.head?_nil]
  · exact List.Pairwise.nil
  · rw [takes_seq_one]
    split
    · exact (h.falling cs).map_append [c]
    · exact List.Pairwise.nil

theorem Gets.after_exactly (w : List Char) (h : q.Gets f) :
    (seq (exactly w) q).Gets fun s =>
      if w.isPrefixOf s then (f (s.drop w.length)).map (w ++ ·) else none := by
  constructor <;> intro s <;> rw [takes_exactly_seq] <;> split
  · rw [List.head?_map, h.head]
  · rfl
  · exact (h.falling _).map_append w
  · exact List.Pairwise.nil

theorem Gets.after_run {test : Char → Bool} (hq : ∀ c cs, test c → q.takes (c :: cs) = [])
    (h : q.Gets f) :
    (seq (oneOrMore test) q).Gets fun s =>
      (Lexeme.run? test s).bind fun w => (f (s.drop w.length)).map (w ++ ·) := by
  constructor <;> intro s <;> rw [takes_run_seq hq] <;> cases Lexeme.run? test s
  · rfl
  · rw [List.head?_map, h.head, Option.bind_some]
  · exact List.Pairwise.nil
  · exact (h.falling _).map_append _

theorem Gets.after_sign (hq : ∀ cs, q.takes ('-' :: cs) = []) (h : q.Gets f) :
    (seq (optional (exactly ['-'])) q).Gets fun s =>
      (f (s.drop (Lexeme.sign s).length)).map (Lexeme.sign s ++ ·) := by
  constructor <;> intro s <;> rw [takes_sign_seq hq]
  · rw [List.head?_map, h.head]
  · exact (h.falling _).map_append _

theorem gets_oneOrMore (test : Char → Bool) : (oneOrMore test).Gets (Lexeme.run? test) := by
  refine ((gets_many test).after_one test).congr ?_
  rintro (_ | ⟨c, cs⟩)
  · rfl
  · by_cases hc : test c <;> simp [Lexeme.run?, hc]

/-- What is spelled longest is what a search comes to first. -/
theorem Gets.longest_iff {longest? : List Char → Option (List Char)} (h : p.Gets longest?) :
    p.Longest s w ↔ longest? s = some w := by
  rw [← h.head s]
  constructor
  · rintro ⟨hw, hp, longest⟩
    have hm := mem_takes.mpr ⟨hw, hp⟩
    cases ht : p.takes s with
    | nil =>
      rw [ht] at hm
      cases hm
    | cons v vs =>
      have falling := h.falling s
      rw [ht] at hm falling
      rcases List.mem_cons.mp hm with rfl | hm
      · rfl
      · have shorter := (List.pairwise_cons.mp falling).1 w hm
        obtain ⟨hv, hpv⟩ := mem_takes.mp (ht ▸ List.mem_cons_self : v ∈ p.takes s)
        have := longest v hv hpv
        omega
  · intro hh
    obtain ⟨vs, ht⟩ := List.head?_eq_some_iff.mp hh
    have falling := h.falling s
    rw [ht] at falling
    obtain ⟨hw, hp⟩ := mem_takes.mp (ht ▸ List.mem_cons_self : w ∈ p.takes s)
    refine ⟨hw, hp, fun v hv hpv => ?_⟩
    have hm := mem_takes.mpr ⟨hv, hpv⟩
    rw [ht] at hm
    rcases List.mem_cons.mp hm with rfl | hm
    · exact Nat.le_refl _
    · exact Nat.le_of_lt ((List.pairwise_cons.mp falling).1 v hm)

theorem Gets.none_iff {longest? : List Char → Option (List Char)} (h : p.Gets longest?) :
    (∀ v, v <+: s → ¬ p.Spells v) ↔ longest? s = none := by
  rw [← h.head s, List.head?_eq_none_iff, List.eq_nil_iff_forall_not_mem]
  simp only [mem_takes, not_and]

end Pattern

namespace Lexeme

open Pattern

/-! ## Ranges of characters -/

theorem le_and_le (c d : Char) : (decide (c ≤ d) && decide (d ≤ c)) = decide (d = c) := by
  rw [← Bool.decide_and]
  refine decide_eq_decide.mpr ⟨fun h => Char.le_antisymm h.2 h.1, ?_⟩
  rintro rfl
  exact ⟨Char.le_refl _, Char.le_refl _⟩

theorem digit_range (c : Char) : (decide ('0' ≤ c) && decide (c ≤ '9')) = c.isDigit := rfl

theorem letter_ranges (c : Char) : (decide ('A' ≤ c) && decide (c ≤ 'Z') ||
    (decide ('a' ≤ c) && decide (c ≤ 'z'))) = c.isAlpha := by
  rw [← Bool.decide_and]
  rfl

theorem among_digits : among [('0', '9')] = Char.isDigit := by
  funext c
  simp [among, digit_range]

theorem among_figures : among [('0', '9'), (';', ';')] = isFigure := by
  funext c
  simp [among, isFigure, digit_range, le_and_le]

theorem among_letters : among [('A', 'Z'), ('a', 'z'), ('_', '_')] = isLetter := by
  funext c
  simp [among, isLetter, ← letter_ranges, le_and_le, Bool.or_assoc]

theorem among_letters_last : among [('_', '_'), ('A', 'Z'), ('a', 'z')] = isLetter := by
  funext c
  simp [among, isLetter, ← letter_ranges, le_and_le, Bool.or_comm]

theorem among_wordChars :
    among [('A', 'Z'), ('a', 'z'), ('_', '_'), ('0', '9')] = isWordChar := by
  funext c
  simp [among, isWordChar, isLetter, ← letter_ranges, digit_range, le_and_le, Bool.or_assoc]

theorem among_blanks : among [(' ', ' '), ('\t', '\t'), ('\r', '\r')] = isBlank := by
  funext c
  simp [among, isBlank, le_and_le, Bool.or_assoc]

/-! ## The forms -/

/-- A run cannot start with a character that fails its test. -/
theorem takes_oneOrMore_nil {test : Char → Bool} {c : Char} (hc : test c = false)
    (cs : List Char) : (oneOrMore test).takes (c :: cs) = [] := by
  rw [oneOrMore, takes_seq_one, hc]
  rfl

theorem gets_malformed : Form.malformed.pattern.Gets Form.malformed.longest? := by
  have apart (c : Char) (cs : List Char) (hc : isFigure c) :
      (oneOrMore isLetter).takes (c :: cs) = [] := by
    refine takes_oneOrMore_nil (Bool.eq_false_iff.mpr fun hl => ?_) cs
    rw [not_isFigure_of_isLetter hl] at hc
    cases hc
  rw [Form.pattern, among_figures, among_letters_last]
  refine ((gets_oneOrMore isLetter).after_run apart).congr fun s => ?_
  simp only [Form.longest?, Option.map_eq_bind]
  rfl

theorem gets_comment : Form.comment.pattern.Gets Form.comment.longest? := by
  refine ((gets_many inLine).after_exactly commentMark).congr fun s => ?_
  rw [Form.longest?]
  split
  · rename_i hm
    obtain ⟨rest, rfl⟩ := List.isPrefixOf_iff_prefix.mp hm
    have inside : ∀ c ∈ commentMark, inLine c := List.all_eq_true.mp (by decide)
    rw [List.drop_left, line]
    exact congrArg some (List.takeWhile_append_of_pos inside).symm
  · rfl

/-- The last mark of the line comes first, and then those before it. -/
theorem gets_throughLast? (mark : Char) (hm : mark ≠ '\n') :
    (seq (many inLine) (exactly [mark])).Gets fun s => throughLast? mark (line s) := by
  constructor
  · intro s
    induction s with
    | nil => rfl
    | cons c cs ih =>
      rw [takes_many_seq_cons, takes_exactly]
      by_cases hc : c = '\n'
      · subst hc
        simp [inLine, line, throughLast?, hm]
      · have first : line (c :: cs) = c :: line cs := by simp [line, hc]
        have inside : inLine c := decide_eq_true hc
        rw [first, throughLast?, ← ih, if_pos inside, List.head?_append, List.head?_map]
        cases ((seq (many inLine) (exactly [mark])).takes cs).head? with
        | some w => rfl
        | none =>
          rcases eq_or_ne c mark with rfl | he
          · simp
          · simp [he, he.symm]
  · intro s
    induction s with
    | nil => exact List.Pairwise.nil
    | cons c cs ih =>
      have last := (gets_exactly [mark]).falling (c :: cs)
      rw [takes_many_seq_cons]
      split
      · refine List.pairwise_append.mpr ⟨ih.map_append [c], last, ?_⟩
        intro v hv w hw
        obtain ⟨u, hu, rfl⟩ := List.mem_map.mp hv
        obtain ⟨-, more⟩ := mem_takes.mp hu
        obtain ⟨x, -, y, hy, rfl⟩ := spells_seq.mp more
        rw [spells_exactly.mp hy, spells_exactly.mp (mem_takes.mp hw).2]
        simp
      · exact last

theorem gets_text : Form.text.pattern.Gets Form.text.longest? := by
  refine ((gets_throughLast? textMark (by decide)).after_exactly [textMark]).congr ?_
  rintro (_ | ⟨c, cs⟩)
  · rfl
  · by_cases hc : c = textMark
    · simp [Form.longest?, hc]
    · simp [Form.longest?, hc, Ne.symm hc]

/-- Words of which none starts another: a text starts with one of them at most. -/
theorem gets_anyOf {words : List (List Char)}
    (apart : words.Pairwise fun v w => ¬ v <+: w ∧ ¬ w <+: v) :
    (anyOf words).Gets fun s => words.find? (·.isPrefixOf s) := by
  have takes_anyOf (s : List Char) : (anyOf words).takes s = words.filter (·.isPrefixOf s) := by
    clear apart
    induction words with
    | nil => rfl
    | cons w ws ih =>
      rw [anyOf, takes, takes_exactly, ih, List.filter_cons]
      split <;> rfl
  constructor <;> intro s <;> rw [takes_anyOf]
  · exact List.head?_filter
  · refine (List.pairwise_filter.mpr (apart.imp fun {v w} h hv hw => ?_))
    have hv := List.isPrefixOf_iff_prefix.mp hv
    have hw := List.isPrefixOf_iff_prefix.mp hw
    rcases List.prefix_or_prefix_of_prefix hv hw with hvw | hwv
    · exact absurd hvw h.1
    · exact absurd hwv h.2

theorem gets_punctuation : Form.punctuation.pattern.Gets Form.punctuation.longest? :=
  gets_anyOf (by decide)

theorem gets_integer : Form.integer.pattern.Gets Form.integer.longest? := by
  rw [Form.pattern, among_digits]
  refine ((gets_oneOrMore Char.isDigit).after_sign (takes_oneOrMore_nil rfl)).congr fun s => ?_
  rw [Form.longest?, integer?]
  cases run? Char.isDigit (s.drop (sign s).length) <;> rfl

theorem gets_float : Form.float.pattern.Gets Form.float.longest? := by
  have apart (c : Char) (cs : List Char) (hc : c.isDigit) :
      (seq (exactly [';']) (oneOrMore Char.isDigit)).takes (c :: cs) = [] := by
    rw [takes_exactly_seq, if_neg]
    rw [List.isPrefixOf_iff_prefix, List.cons_prefix_cons]
    rintro ⟨rfl, -⟩
    exact absurd hc (by decide)
  have unsigned (cs : List Char) : (seq (oneOrMore Char.isDigit)
      (seq (exactly [';']) (oneOrMore Char.isDigit))).takes ('-' :: cs) = [] := by
    rw [takes, takes_oneOrMore_nil rfl]
    rfl
  rw [Form.pattern, among_digits]
  refine ((((gets_oneOrMore Char.isDigit).after_exactly [';']).after_run apart).after_sign
    unsigned).congr fun s => ?_
  simp only [Form.longest?, float?, integer?]
  cases run? Char.isDigit (s.drop (sign s).length) with
  | none => rfl
  | some w =>
    simp only [Option.bind_some, Option.bind_eq_bind, Option.pure_def]
    rw [List.length_append, ← List.drop_drop]
    cases (s.drop (sign s).length).drop w.length with
    | nil => rfl
    | cons c cs =>
      by_cases hc : c = ';'
      · subst hc
        cases hd : run? Char.isDigit cs <;> simp [hd]
      · simp [hc, Ne.symm hc]

theorem gets_word : Form.word.pattern.Gets Form.word.longest? := by
  rw [Form.pattern, among_letters, among_wordChars]
  refine ((gets_many isWordChar).after_one isLetter).congr ?_
  rintro (_ | ⟨c, cs⟩) <;> rfl

theorem gets_newline : Form.newline.pattern.Gets Form.newline.longest? := by
  refine (gets_exactly ['\n']).congr ?_
  rintro (_ | ⟨c, cs⟩)
  · rfl
  · by_cases hc : c = '\n'
    · simp [hc, Form.longest?]
    · simp [hc, Ne.symm hc, Form.longest?]

theorem gets_blank : Form.blank.pattern.Gets Form.blank.longest? := by
  rw [Form.pattern, among_blanks]
  exact gets_oneOrMore isBlank

theorem gets_stray : Form.stray.pattern.Gets Form.stray.longest? := by
  constructor <;> rintro (_ | ⟨c, cs⟩)
  · rfl
  · by_cases hc : c = '\n' <;> simp [Form.pattern, takes, inLine, Form.longest?, hc]
  · exact List.Pairwise.nil
  · rw [Form.pattern, takes]
    split
    · exact List.pairwise_singleton _ _
    · exact List.Pairwise.nil

theorem Form.gets (form : Form) : form.pattern.Gets form.longest? := by
  cases form with
  | malformed => exact gets_malformed
  | comment => exact gets_comment
  | text => exact gets_text
  | punctuation => exact gets_punctuation
  | float => exact gets_float
  | integer => exact gets_integer
  | word => exact gets_word
  | newline => exact gets_newline
  | blank => exact gets_blank
  | stray => exact gets_stray

/-! ## The lexemes of a text -/

theorem preferred_iff {s : List Char} {l : Lexeme} : Preferred s l ↔ first? s = some l := by
  rw [first?, List.findSome?_eq_some_iff, Preferred]
  constructor
  · rintro ⟨before, after, order, earlier, longest⟩
    refine ⟨before, l.form, after, order, ?_, fun form hf => ?_⟩
    · rw [l.form.gets.longest_iff.mp longest]
      rfl
    · rw [form.gets.none_iff.mp (earlier form hf)]
      rfl
  · rintro ⟨before, form, after, order, hl, earlier⟩
    obtain ⟨w, hw, rfl⟩ := Option.map_eq_some_iff.mp hl
    refine ⟨before, after, order, fun f hf => ?_, form.gets.longest_iff.mpr hw⟩
    exact f.gets.none_iff.mpr (Option.map_eq_none_iff.mp (earlier f hf))

theorem spells_of_first? {s : List Char} {l : Lexeme} (h : first? s = some l) :
    l.form.pattern.Spells l.chars := by
  obtain ⟨-, -, -, -, longest⟩ := preferred_iff.mpr h
  exact longest.spells

theorem foundFirst_iff {s : List Char} {l : Lexeme} : FoundFirst s l ↔ first? s = some l := by
  rw [FoundFirst, first?, List.head?_flatMap]
  simp only [List.head?_map, (Form.gets _).head]
  rfl

/-- A text has one list of lexemes. -/
theorem segmented_iff {picks : List Char → Lexeme → Prop}
    (h : ∀ s l, picks s l ↔ first? s = some l) {s : List Char} {ls : List Lexeme} :
    Segmented picks s ls ↔ ls = segment s := by
  induction ls generalizing s with
  | nil =>
    rw [Segmented]
    constructor
    · rintro rfl
      rfl
    · intro hs
      cases s with
      | nil => rfl
      | cons c cs =>
        obtain ⟨l, hl⟩ := Option.ne_none_iff_exists'.mp (first?_cons_ne_none c cs)
        rw [segment_of_first? hl] at hs
        cases hs
  | cons l ls ih =>
    rw [Segmented, h]
    constructor
    · rintro ⟨hl, rest, rfl, more⟩
      rw [segment_of_first? hl, List.drop_left, ← ih.mp more]
    · intro hs
      have hl : first? s = some l := by
        cases hf : first? s with
        | none =>
          cases s with
          | nil => cases hs
          | cons c cs => exact absurd hf (first?_cons_ne_none c cs)
        | some l' =>
          rw [segment_of_first? hf] at hs
          rw [(List.cons.inj hs).1]
      obtain ⟨rest, rfl⟩ := (begins_of_first? hl).1
      rw [segment_of_first? hl, List.drop_left] at hs
      exact ⟨hl, rest, rfl, ih.mpr (List.cons.inj hs).2⟩

/-- Letters right after a number make it malformed, but not if the number has a sign. -/
example : segment "-1;5x".toList = [⟨.float, ['-', '1', ';', '5']⟩, ⟨.word, ['x']⟩] ∧
    segment "1;5x".toList = [⟨.malformed, ['1', ';', '5', 'x']⟩] := ⟨rfl, rfl⟩

/-! ## The tokens of the lexemes -/

def Form.isUnrecognized (form : Form) : Bool := form ∈ [malformed, stray]

def Form.isToken (form : Form) : Bool := form ∈ [text, punctuation, float, integer, word]

/-- The token has the text and the place of the lexeme, and the kind of its form. A word
is looked up among the reserved words, and otherwise it is a name. -/
structure Gives (placed : Lexeme × Position) (t : Token) : Prop where
  lexeme : t.lexeme.toList = placed.1.chars
  position : t.position = placed.2
  kind : match placed.1.form with
    | .malformed | .stray => t.kind = .unrecognized
    | .text => t.kind = .text
    | .punctuation => t.kind = .punctuation
    | .float => t.kind = .float
    | .integer => t.kind = .integer
    | .word => (t.lexeme, t.kind) ∈ Token.Kind.reservedWords ∨
        (∀ k, (t.lexeme, k) ∉ Token.Kind.reservedWords) ∧ t.kind = .identifier
    | .comment | .newline | .blank => False

theorem mem_reservedWords_or {s : String} {k : Token.Kind}
    (h : (Token.Kind.ofReserved? s).getD .identifier = k) :
    (s, k) ∈ Token.Kind.reservedWords ∨
      (∀ k', (s, k') ∉ Token.Kind.reservedWords) ∧ k = .identifier := by
  cases hr : Token.Kind.ofReserved? s with
  | some k' =>
    rw [hr] at h
    cases h
    exact .inl (mem_reservedWords hr)
  | none =>
    rw [hr] at h
    refine .inr ⟨fun k' hk => ?_, h.symm⟩
    have := List.lookup_eq_none_iff.mp hr _ hk
    simp at this

/-- A lexeme gives a token that is its own, or it is layout. -/
theorem gives_ofLexeme? (placed : Lexeme × Position) :
    match Token.ofLexeme? placed with
    | some t => Gives placed t ∧
        decide (t.kind = .unrecognized) = placed.1.form.isUnrecognized ∧
        decide (t.kind ≠ .unrecognized) = placed.1.form.isToken
    | none => placed.1.form.isUnrecognized = false ∧ placed.1.form.isToken = false := by
  obtain ⟨⟨form, chars⟩, p⟩ := placed
  cases form with
  | comment | newline | blank => exact ⟨rfl, rfl⟩
  | word =>
    generalize hk : (Token.Kind.ofReserved? (String.ofList chars)).getD .identifier = k
    have known := mem_reservedWords_or hk
    have recognized : k ≠ .unrecognized := by
      rcases known with hm | ⟨-, rfl⟩
      · exact (spellsWord_reserved _ hm).2.2
      · decide
    simp only [Token.ofLexeme?, kind?, hk, Option.map_some]
    exact ⟨⟨String.toList_ofList, rfl, known⟩, decide_eq_false recognized,
      decide_eq_true recognized⟩
  | malformed | stray | text | punctuation | float | integer =>
    exact ⟨⟨String.toList_ofList, rfl, rfl⟩, rfl, rfl⟩

/-- The tokens that a test on tokens keeps are those of the lexemes that a test on forms
keeps. -/
theorem gives_filter (keeps : Form → Bool) (sieve : Token → Bool)
    (h : ∀ placed, match Token.ofLexeme? placed with
      | some t => Gives placed t ∧ sieve t = keeps placed.1.form
      | none => keeps placed.1.form = false) (ls : List (Lexeme × Position)) :
    List.Forall₂ Gives (ls.filter (keeps ·.1.form))
      ((ls.filterMap Token.ofLexeme?).filter sieve) := by
  induction ls with
  | nil => exact .nil
  | cons placed ls ih =>
    have here := h placed
    rw [List.filter_cons, List.filterMap_cons]
    cases ht : Token.ofLexeme? placed with
    | none =>
      rw [ht] at here
      simp only [here]
      exact ih
    | some t =>
      rw [ht] at here
      simp only [List.filter_cons, ← here.2]
      split
      · exact .cons here.1 ih
      · exact ih

end Lexeme

open Lexeme

theorem scan_eq (source : String) :
    scan source =
      if (Token.list source).filter (·.kind = .unrecognized) = [] then
        .ok ((Token.list source).filter (·.kind ≠ .unrecognized))
      else .error ((Token.list source).filter (·.kind = .unrecognized)) := by
  have kept : (fun t : Token => !decide (t.kind = .unrecognized)) =
      fun t => decide (t.kind ≠ .unrecognized) := by
    funext t
    rw [decide_not]
  rw [scan, List.partition_eq_filter_filter, Function.comp_def, kept]
  cases (Token.list source).filter (·.kind = .unrecognized) with
  | nil => rfl
  | cons t ts => rfl

theorem forms_place (p : Position) (ls : List Lexeme) : (place p ls).map (·.1) = ls := by
  induction ls generalizing p with
  | nil => rfl
  | cons l ls ih => rw [place, List.map_cons, ih]

/-- The text falls into lexemes by an ordered choice, which a search with backtracking makes
too. The scan fails with all unrecognized lexemes if there are any, and else it gives the tokens
of all lexemes but the layout. -/
theorem scan_ordered_choice (source : String) :
    let ls := segment source.toList
    (∀ ls', Segmented Preferred source.toList ls' ↔ ls' = ls) ∧
    (∀ ls', Segmented FoundFirst source.toList ls' ↔ ls' = ls) ∧
    match scan source with
    | .ok tokens => (∀ l ∈ ls, ¬ l.form.isUnrecognized) ∧
        List.Forall₂ Gives ((place .start ls).filter (·.1.form.isToken)) tokens ∧
        ∀ t ∈ tokens, t.kind ≠ .unrecognized
    | .error pieces => pieces ≠ [] ∧
        List.Forall₂ Gives ((place .start ls).filter (·.1.form.isUnrecognized)) pieces := by
  intro ls
  refine ⟨fun ls' => segmented_iff fun s l => preferred_iff,
    fun ls' => segmented_iff fun s l => foundFirst_iff, ?_⟩
  have pieces := gives_filter Form.isUnrecognized (·.kind = .unrecognized) (fun placed => by
    have law := gives_ofLexeme? placed
    split at law
    · exact ⟨law.1, law.2.1⟩
    · exact law.1) (place .start ls)
  have tokens := gives_filter Form.isToken (·.kind ≠ .unrecognized) (fun placed => by
    have law := gives_ofLexeme? placed
    split at law
    · exact ⟨law.1, law.2.2⟩
    · exact law.2) (place .start ls)
  rw [scan_eq, Token.list]
  by_cases clean : ((place .start ls).filterMap Token.ofLexeme?).filter
      (·.kind = .unrecognized) = []
  · rw [if_pos clean]
    rw [clean, List.forall₂_nil_right_iff, List.filter_eq_nil_iff] at pieces
    refine ⟨fun l hl => ?_, tokens, fun t ht => ?_⟩
    · rw [← forms_place .start ls] at hl
      obtain ⟨placed, hp, rfl⟩ := List.mem_map.mp hl
      exact pieces placed hp
    · exact of_decide_eq_true (List.mem_filter.mp ht).2
  · rw [if_neg clean]
    exact ⟨clean, pieces⟩

end Mamuth
