-- Messages of one line. A message holds words of the source, names of kinds and types, numbers
-- and what was expected; none of these has a newline, if the words of the source have none. What
-- a reader expects is a construct or one of the terminals of the grammar.
import Mamuth.CompileError
import Mamuth.Proofs.ViablePrefixes

namespace Mamuth

/-! ## Texts of one line -/

namespace Text

/-- There is no newline in the text. -/
def OneLine (s : String) : Prop := '\n' ∉ s.toList

instance (s : String) : Decidable (OneLine s) := inferInstanceAs (Decidable (¬ _))

theorem oneLine_append {s t : String} : OneLine (s ++ t) ↔ OneLine s ∧ OneLine t := by
  rw [OneLine, String.toList_append, List.mem_append, not_or]
  rfl

theorem oneLine_toString {s : String} : OneLine (toString s) ↔ OneLine s := Iff.rfl

/-- What is no digit is in no number. -/
theorem not_mem_toDigits {c : Char} (hc : ∀ d : Nat, d.digitChar ≠ c) {b : Nat} (hb : 1 < b)
    (n : Nat) : c ∉ Nat.toDigits b n := by
  have digit (d : Nat) : c ≠ d.digitChar := (hc d).symm
  induction n using Nat.strongRecOn with
  | ind n ih =>
    rw [Nat.toDigits_eq_if hb]
    split
    · simp [digit]
    · have := ih (n / b) (Nat.div_lt_self (by omega) hb)
      simp [this, digit]

theorem newline_not_mem_toDigits {b : Nat} (hb : 1 < b) (n : Nat) : '\n' ∉ Nat.toDigits b n :=
  not_mem_toDigits (fun _ => Nat.digitChar_ne '\n' (by decide)) hb n

theorem oneLine_nat (n : Nat) : OneLine (toString n) := by
  rw [OneLine, Nat.toString_eq_repr, Nat.toList_repr]
  exact newline_not_mem_toDigits (by decide) n

theorem oneLine_intercalate {separator : String} {texts : List String} (hs : OneLine separator)
    (ht : ∀ t ∈ texts, OneLine t) : OneLine (separator.intercalate texts) := by
  induction texts with
  | nil => simp [OneLine]
  | cons t ts ih =>
    rw [List.forall_mem_cons] at ht
    cases ts with
    | nil => simpa using ht.1
    | cons u us =>
      rw [String.intercalate_cons_cons, oneLine_append, oneLine_append]
      exact ⟨⟨ht.1, hs⟩, ih ht.2⟩

/-- A newline has a short escape, and no short escape is a newline. -/
theorem newline_not_mem_escape (c : Char) : '\n' ∉ escape c := by
  unfold escape
  split
  · rename_i letter h
    obtain ⟨before, after, hp, -⟩ := List.lookup_eq_some_iff.mp h
    have table : ∀ p ∈ shortEscapes, '\n' ≠ p.2 := by decide
    have := table (c, letter) (by rw [hp]; simp)
    simpa using this
  · rename_i h
    have hc : '\n' ≠ c := by
      rintro rfl
      cases h
    split
    · simp [numbered, newline_not_mem_toDigits]
    · simpa using hc

theorem oneLine_quoted (s : String) : OneLine (quoted s) := by
  simp [OneLine, quoted, newline_not_mem_escape]

end Text

open Text

/-! ## Places and names -/

theorem Position.oneLine_inWords (p : Position) : OneLine p.inWords := by
  simp only [inWords, oneLine_append, oneLine_toString, oneLine_nat]
  simp [OneLine]

theorem Position.oneLine_asPair (p : Position) : OneLine p.asPair := by
  simp only [asPair, oneLine_append, oneLine_toString, oneLine_nat]
  simp [OneLine]

theorem Token.Kind.oneLine_name (k : Kind) : OneLine k.name := by
  cases k <;> simp [name, OneLine]

theorem Ty.oneLine_name (t : Ty) : OneLine t.name := by
  cases t <;> simp [name, OneLine]

/-! ## What can be expected -/

/-- What the grammar has: a construct, or one of its terminals. -/
def Expected.InGrammar : Expected → Prop
  | terminal x => x ∈ Terminal.all
  | construct _ => True

/-- Wherever the reader gets stuck, it expects something that the grammar has. -/
def Reader.Expects (r : Reader α) : Prop :=
  ∀ recognizes ts stuck, r recognizes ts = .error stuck → stuck.expected.InGrammar

namespace Reader

theorem expects_pure (x : α) : Expects (pure x : Reader α) := fun _ _ _ h => nomatch h

theorem expects_stuck (c : Construct) : Expects (stuck (.construct c) : Reader α) := by
  intro _ _ _ h
  cases h
  trivial

theorem expects_sees (x : Terminal) : Expects (sees x) := fun _ _ _ h => nomatch h

theorem expects_left : Expects left := fun _ _ _ h => nomatch h

theorem expects_take {x : Terminal} (hx : x ∈ Terminal.all) : Expects (take x) := by
  intro _ ts _ h
  unfold take at h
  split at h
  · split at h <;> cases h
    exact hx
  · cases h
    exact hx

theorem Expects.bind {r : Reader α} {f : α → Reader β} (h : r.Expects)
    (hf : ∀ x, (f x).Expects) : (r >>= f).Expects := by
  intro recognizes ts stuck hs
  rcases bind_eq_error hs with hr | ⟨x, mid, -, hr⟩
  · exact h _ _ _ hr
  · exact hf x _ _ _ hr

theorem Expects.ifSeen {sees : Reader Bool} {r s : Reader α} (looks : sees.Expects)
    (h : r.Expects) (h' : s.Expects) : Expects (do if ← sees then r else s) := by
  refine looks.bind fun seen => ?_
  cases seen
  · exact h'
  · exact h

theorem expects_word {text : String} (h : .word text ∈ Terminal.all) : Expects (word text) :=
  (expects_take h).bind fun _ => expects_pure _

theorem expects_manyWithin {item : Reader α} (x : Terminal) (h : item.Expects) (n : Nat) :
    Expects (manyWithin (sees x) item n) := by
  induction n with
  | zero => exact expects_pure _
  | succ n ih =>
    exact (expects_sees x).ifSeen (h.bind fun _ => ih.bind fun _ => expects_pure _)
      (expects_pure _)

theorem expects_many {item : Reader α} (x : Terminal) (h : item.Expects) :
    Expects (many (sees x) item) :=
  expects_left.bind fun _ => expects_manyWithin x h _

end Reader

namespace Grammar

open Reader

theorem expects_leaf {k : Token.Kind} (h : .kind k ∈ Terminal.all) : (leaf k).Expects :=
  (expects_take h).bind fun _ => expects_pure _

theorem expects_value : value.Expects := by
  have only {k : Token.Kind} (f : Leaf → Value) (h : .kind k ∈ Terminal.all) :
      Expects (do return f (← leaf k)) := (expects_leaf h).bind fun _ => expects_pure _
  exact (expects_sees _).ifSeen (only _ (by decide)) <|
    (expects_sees _).ifSeen (only _ (by decide)) <|
    (expects_sees _).ifSeen (only _ (by decide)) <|
    (expects_sees _).ifSeen (only _ (by decide)) <|
    (expects_sees _).ifSeen (only _ (by decide)) (expects_stuck _)

theorem expects_seesValue : seesValue.Expects :=
  (expects_sees _).bind fun _ => (expects_sees _).bind fun _ => (expects_sees _).bind fun _ =>
    (expects_sees _).bind fun _ => (expects_sees _).bind fun _ => expects_pure _

theorem expects_math : math.Expects :=
  (expects_word (by decide)).bind fun _ => expects_value.bind fun _ =>
    (expects_many _ ((expects_leaf (by decide)).bind fun _ => expects_value.bind fun _ =>
      expects_pure _)).bind fun _ =>
    (expects_word (by decide)).bind fun _ => expects_pure _

theorem expects_bracketed {item : Reader α} (h : item.Expects) : (bracketed item).Expects := by
  have items : (itemsBeforeBracket item).Expects := by
    refine expects_left.bind fun n => ?_
    split
    · exact expects_pure _
    · exact (expects_sees _).ifSeen (expects_pure _) <| h.bind fun _ =>
        (expects_many _ ((expects_word (by decide)).bind fun _ => h)).bind fun _ => expects_pure _
  exact (expects_word (by decide)).bind fun _ => items.bind fun _ =>
    (expects_word (by decide)).bind fun _ => expects_pure _

theorem expects_invocation : invocation.Expects :=
  (expects_word (by decide)).bind fun _ => (expects_leaf (by decide)).bind fun _ =>
    (expects_bracketed expects_value).bind fun _ => expects_pure _

theorem expects_expression : expression?.Expects :=
  (expects_sees _).ifSeen (expects_math.bind fun _ => expects_pure _) <|
    (expects_sees _).ifSeen (expects_invocation.bind fun _ => expects_pure _) <|
    expects_seesValue.ifSeen (expects_value.bind fun _ => expects_pure _) (expects_pure _)

theorem expects_assignment : assignment.Expects := by
  refine (expects_leaf (by decide)).bind fun target => (expects_word (by decide)).bind fun _ =>
    expects_expression.bind fun value => ?_
  cases value with
  | none => exact expects_stuck _
  | some value => exact (expects_word (by decide)).bind fun _ => expects_pure _

theorem expects_comparison : comparison.Expects :=
  expects_value.bind fun _ => (expects_leaf (by decide)).bind fun _ => expects_value.bind fun _ =>
    expects_pure _

theorem expects_condition : condition.Expects :=
  expects_comparison.bind fun _ => (expects_sees _).ifSeen
    ((expects_leaf (by decide)).bind fun _ => expects_comparison.bind fun _ => expects_pure _)
    (expects_pure _)

section

variable {block : Reader Block} (h : block.Expects)
include h

theorem expects_enclosed : (enclosed block).Expects :=
  (expects_word (by decide)).bind fun _ => h.bind fun _ =>
    (expects_word (by decide)).bind fun _ => expects_pure _

theorem expects_loop : (loop block).Expects :=
  (expects_word (by decide)).bind fun _ => (expects_word (by decide)).bind fun _ =>
    h.bind fun _ => (expects_word (by decide)).bind fun _ =>
    (expects_word (by decide)).bind fun _ => expects_condition.bind fun _ =>
    (expects_word (by decide)).bind fun _ => (expects_word (by decide)).bind fun _ =>
    expects_pure _

theorem expects_conditional : (conditional block).Expects :=
  (expects_word (by decide)).bind fun _ => (expects_word (by decide)).bind fun _ =>
    expects_condition.bind fun _ => (expects_word (by decide)).bind fun _ =>
    (expects_enclosed h).bind fun _ =>
    (expects_sees _).ifSeen ((expects_word (by decide)).bind fun _ =>
      (expects_enclosed h).bind fun _ => expects_pure _) (expects_pure _)

omit h in
theorem expects_giveBack : giveBack.Expects :=
  (expects_word (by decide)).bind fun _ => expects_expression.bind fun _ =>
    (expects_word (by decide)).bind fun _ => expects_pure _

theorem expects_instruction : (instruction block).Expects :=
  (expects_sees _).ifSeen (expects_assignment.bind fun _ => expects_pure _) <|
    (expects_sees _).ifSeen (expects_loop h) <| (expects_sees _).ifSeen (expects_conditional h) <|
    (expects_sees _).ifSeen expects_giveBack (expects_stuck _)

end

theorem expects_seesInstruction : seesInstruction.Expects :=
  (expects_sees _).bind fun _ => (expects_sees _).bind fun _ => (expects_sees _).bind fun _ =>
    (expects_sees _).bind fun _ => expects_pure _

theorem expects_blockWithin (n : Nat) : (blockWithin n).Expects := by
  induction n with
  | zero => exact expects_stuck _
  | succ n ih =>
    exact (expects_instruction ih).bind fun _ => expects_seesInstruction.ifSeen
      (ih.bind fun _ => expects_pure _) (expects_pure _)

theorem expects_block : block.Expects := expects_left.bind fun n => expects_blockWithin n

theorem expects_function : function.Expects :=
  (expects_word (by decide)).bind fun _ => (expects_leaf (by decide)).bind fun _ =>
    (expects_bracketed (expects_leaf (by decide))).bind fun _ =>
    (expects_enclosed expects_block).bind fun _ => expects_pure _

theorem expects_program : program.Expects := by
  have entry : entryPoint.Expects :=
    (expects_word (by decide)).bind fun _ => (expects_word (by decide)).bind fun _ =>
      (expects_word (by decide)).bind fun _ => (expects_enclosed expects_block).bind fun _ =>
      expects_pure _
  exact (expects_many _ expects_assignment).bind fun _ =>
    (expects_many _ expects_function).bind fun _ => entry.bind fun _ => expects_pure _

end Grammar

/-- What was expected, if something else was found. -/
def SyntaxError.expected? : SyntaxError → Option Expected
  | unexpected expected _ | endOfInput expected _ => some expected
  | trailing _ => none

theorem Program.expected_inGrammar {tokens : List Token} {e : SyntaxError}
    (h : ofTokens tokens = .error e) : ∀ expected ∈ e.expected?, expected.InGrammar := by
  unfold ofTokens read at h
  split at h
  · cases h
  · cases h
    nofun
  · rename_i stuck hs
    have := Grammar.expects_program _ _ _ hs
    obtain ⟨expected, _ | _⟩ := stuck <;> cases h <;> simpa [SyntaxError.ofStuck,
      SyntaxError.expected?] using this

/-! ## Messages -/

theorem Expected.InGrammar.oneLine_inWords {e : Expected} (h : e.InGrammar) :
    OneLine e.inWords := by
  cases e with
  | construct c => cases c <;> decide
  | terminal x =>
    have table : Terminal.all.all fun x => OneLine (Expected.terminal x).inWords := by decide
    exact of_decide_eq_true (List.all_eq_true.mp table x h)

theorem Token.oneLine_report {t : Token} (h : OneLine t.lexeme) : OneLine t.report := by
  simp only [report, oneLine_append, oneLine_toString, h, Kind.oneLine_name,
    Position.oneLine_asPair]
  simp [OneLine]

theorem SyntaxError.oneLine_message {e : SyntaxError}
    (he : ∀ expected ∈ e.expected?, expected.InGrammar)
    (hf : ∀ t ∈ e.found?, OneLine t.lexeme) : OneLine e.message := by
  unfold message
  split
  case h_1 text found =>
    have words : OneLine s!"'{text}'" := (he _ rfl).oneLine_inWords
    have word : OneLine text := (oneLine_append.mp (oneLine_append.mp words).1).2
    simp only [oneLine_append, oneLine_toString, word, hf found rfl, Position.oneLine_asPair]
    -- Here and below, what is left are the fixed parts of the message.
    simp [OneLine]
  case h_2 kind found =>
    simp only [oneLine_append, oneLine_toString, Token.oneLine_report (hf found rfl),
      Token.Kind.oneLine_name]
    simp [OneLine]
  case h_3 c found =>
    have words : OneLine c.inWords := (he _ rfl).oneLine_inWords
    simp only [oneLine_append, oneLine_toString, Token.oneLine_report (hf found rfl), words]
    simp [OneLine]
  case h_4 expected position =>
    simp only [oneLine_append, oneLine_toString, (he expected rfl).oneLine_inWords,
      Position.oneLine_asPair]
    simp [OneLine]
  case h_5 found =>
    simp only [oneLine_append, oneLine_toString, hf found rfl, Position.oneLine_asPair]
    simp [OneLine]

/-- The word of the source that the fault names. -/
def Fault.word? : Fault → Option String
  | undeclared name _ | notCallable name _ | functionArgument name _ => some name
  | notNumeric operand _ _ => some operand
  | incomparable comparator _ _ _ => some comparator
  | malformed _ => none

theorem Fault.oneLine_message {f : Fault} (h : ∀ word ∈ f.word?, OneLine word) :
    OneLine f.message := by
  unfold message
  split
  case h_6 shape => cases shape <;> simp [Shape.inWords, OneLine]
  all_goals
    have word := h _ rfl
    simp only [oneLine_append, oneLine_toString, word, Ty.oneLine_name, Position.oneLine_inWords]
    simp [OneLine]

theorem Fault.oneLine_heading (f : Fault) : OneLine f.heading := by
  cases f <;> simp [heading, OneLine]

namespace CompileError

theorem oneLine_lexical (pieces : List Token) : OneLine (lexical pieces).message := by
  have reports : ∀ t ∈ pieces.map fun t => s!"{quoted t.lexeme} at {t.position.asPair}",
      OneLine t := by
    intro text ht
    obtain ⟨t, -, rfl⟩ := List.mem_map.mp ht
    simp only [oneLine_append, oneLine_toString, oneLine_quoted, Position.oneLine_asPair]
    simp [OneLine]
  have separator : OneLine ", " := by simp [OneLine]
  have list := oneLine_intercalate separator reports
  unfold message
  simp only [oneLine_append, oneLine_toString, oneLine_nat, list]
  simp [OneLine]

theorem oneLine_syntactic {e : SyntaxError} (h : OneLine e.message) :
    OneLine (syntactic e).message := by
  unfold message
  simp only [oneLine_append, oneLine_toString, h]
  simp [OneLine]

theorem oneLine_semantic {f : Fault} (h : OneLine f.message) : OneLine (semantic f).message := by
  unfold message
  simp only [oneLine_append, oneLine_toString, h, Fault.oneLine_heading]
  simp [OneLine]

end CompileError

end Mamuth
