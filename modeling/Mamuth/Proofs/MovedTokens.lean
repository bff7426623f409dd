-- Tokens at other places. Readers pass the places of tokens on and decide nothing by them: tokens
-- with the same kinds and texts are the same program wherever they stand, or no program for the
-- same reason, and the nodes of the tree stand where the tokens do.
import Mamuth.Proofs.Layout
import Mamuth.Proofs.Lines
import Mamuth.Proofs.ViablePrefixes

namespace Mamuth

/-- The token at the place that is given for its own. -/
def Token.moved (f : Position → Position) (t : Token) : Token := { t with position := f t.position }

def Node.moved (f : Position → Position) (n : Node) : Node := { n with position := f n.position }

def Tree.moved (f : Position → Position) : Tree → Tree := Tree.map (Node.moved f)

variable {f : Position → Position}

theorem Token.getElem?_moved {ts : List Token} {i : Nat} {t : Token} (h : ts[i]? = some t) :
    (ts.map (Token.moved f))[i]? = some (t.moved f) := by
  rw [List.getElem?_map, h]
  rfl

theorem Terminal.recognizes_moved (x : Terminal) (t : Token) :
    x.recognizes (t.moved f) = x.recognizes t := by
  cases x <;> rfl

/-! ## Trees -/

namespace Tree

@[simp] theorem moved_node (root : Node) (children : List Tree) :
    (node root children).moved f = node (root.moved f) (children.map (moved f)) := map_node _ _ _

@[simp] theorem root_moved (t : Tree) : (t.moved f).root = t.root.moved f := root_map _ _

mutual

/-- The numbers do not depend on the places. -/
theorem numberFrom_moved (n : Nat) (t : Tree) :
    (t.moved f).numberFrom n = ((t.numberFrom n).1.moved f, (t.numberFrom n).2) := by
  cases t with
  | node root children =>
    rw [moved_node, numberFrom, numberFrom, numberAllFrom_moved n children, moved_node]
    rfl

theorem numberAllFrom_moved (n : Nat) (ts : List Tree) :
    numberAllFrom n (ts.map (moved f)) =
      ((numberAllFrom n ts).1.map (moved f), (numberAllFrom n ts).2) := by
  cases ts with
  | nil => rfl
  | cons t ts =>
    rw [List.map_cons, numberAllFrom, numberAllFrom, numberFrom_moved n t]
    dsimp only
    rw [numberAllFrom_moved _ ts]
    rfl

end

theorem numbered_moved (t : Tree) : (t.moved f).numbered = t.numbered.moved f := by
  rw [numbered, numberFrom_moved, numbered]

end Tree

/-! ## Derivations -/

namespace Derivation

variable {p : Phrase}

/-- The same productions, for the tokens at other places. -/
def moved (f : Position → Position) {p : Phrase} : Derivation p → Derivation p
  | @terminal x token h => terminal (token.moved f) ((x.recognizes_moved token).trans h)
  | construct d => construct (d.moved f)
  | seq d e => seq (d.moved f) (e.moved f)
  | one d => one (d.moved f)
  | other d => other (d.moved f)
  | absent => absent
  | present d => present (d.moved f)
  | done => done
  | more d e => more (d.moved f) (e.moved f)

theorem yield_moved (d : Derivation p) : (d.moved f).yield = d.yield.map (Token.moved f) := by
  induction d with
  | terminal token h => rfl
  | construct d ih => exact ih
  | seq d e ih ih' => rw [moved, yield, yield, ih, ih', List.map_append]
  | one d ih => exact ih
  | other d ih => exact ih
  | absent => rfl
  | present d ih => exact ih
  | done => rfl
  | more d e ih ih' => rw [moved, yield, yield, ih, ih', List.map_append]

/-- A construct has a first token, and where this one stands it stands too. -/
theorem start_moved {n : Nonterminal} (d : Derivation n.production) :
    (d.moved f).start?.getD .start = f (d.start?.getD .start) := by
  obtain ⟨t, ts, ht⟩ := List.exists_cons_of_ne_nil (d.yield_ne_nil n.not_nullable)
  rw [start?, start?, yield_moved, ht]
  rfl

theorem content_moved (n : Nonterminal) (ts : List Tree) :
    n.content (ts.map (Tree.moved f)) = n.content ts := by
  unfold Nonterminal.content
  split
  · cases ts with
    | nil => rfl
    | cons t ts =>
      rw [List.map_cons, List.head?_cons, List.head?_cons, Option.bind_some, Option.bind_some,
        Tree.root_moved]
      rfl
  · rfl

theorem trees_moved (d : Derivation p) : (d.moved f).trees = d.trees.map (Tree.moved f) := by
  induction d with
  | @terminal x token h =>
    unfold moved trees
    cases x.node? with
    | none => rfl
    | some kind =>
      rw [List.map_singleton, Tree.moved_node]
      rfl
  | @construct n d ih =>
    unfold moved trees
    cases n.node? with
    | none => exact ih
    | some kind =>
      dsimp only
      rw [ih, content_moved, start_moved, List.map_singleton, Tree.moved_node]
      rfl
  | seq d e ih ih' => rw [moved, trees, trees, ih, ih', List.map_append]
  | one d ih => exact ih
  | other d ih => exact ih
  | absent => rfl
  | present d ih => exact ih
  | done => rfl
  | more d e ih ih' => rw [moved, trees, trees, ih, ih', List.map_append]

theorem tree_moved (d : Derivation (.construct .program)) :
    (d.moved f).tree = d.tree.moved f := by
  cases d with
  | construct d =>
    rw [moved, tree, tree, trees_moved, start_moved (n := .program), ← Tree.numbered_moved,
      Tree.inner, Tree.inner, Tree.moved_node]
    rfl

end Derivation

/-! ## Tokens of scans -/

/-- The first lexeme of a text is the first one of itself too. -/
theorem Lexeme.first?_chars {s : List Char} {l : Lexeme} (h : first? s = some l) :
    first? l.chars = some l := by
  obtain ⟨before, after, order, earlier, longest⟩ := preferred_iff.mpr h
  refine preferred_iff.mp ⟨before, after, order, fun form hf v hv => ?_, ?_⟩
  · exact earlier form hf v (hv.trans longest.begins)
  · exact ⟨List.prefix_rfl, longest.spells, fun v hv _ => hv.length_le⟩

/-- A token of a scan is a lexeme that is the first one of itself. -/
theorem Token.lexeme_of_scan {source : String} {tokens : List Token}
    (h : scan source = .ok tokens) {t : Token} (ht : t ∈ tokens) : ∃ l p,
      Lexeme.first? l.chars = some l ∧ ofLexeme? (l, p) = some t ∧ t.kind ≠ .unrecognized := by
  rw [scan_eq] at h
  split at h <;> cases h
  obtain ⟨listed, recognized⟩ := List.mem_filter.mp ht
  obtain ⟨⟨l, p⟩, placed, hl⟩ := List.mem_filterMap.mp listed
  obtain ⟨before, after, segments, -⟩ := Lexeme.mem_place placed
  have inside : l ∈ Lexeme.segment source.toList := by
    rw [segments]
    simp
  obtain ⟨rest, first⟩ := Lexeme.first?_of_mem_segment inside
  exact ⟨l, p, Lexeme.first?_chars first, hl, of_decide_eq_true recognized⟩

/-- What a scan gives as a token is one when it is scanned alone. -/
theorem Token.producible_of_scan {source : String} {tokens : List Token}
    (h : scan source = .ok tokens) : ∀ t ∈ tokens, t.Producible := by
  intro t ht
  obtain ⟨l, p, alone, given, recognized⟩ := lexeme_of_scan h ht
  obtain ⟨kind, hk, rfl⟩ := Option.map_eq_some_iff.mp given
  have whole : (String.ofList l.chars).toList = l.chars := String.toList_ofList
  rw [← whole] at alone
  exact ⟨_, scan_of_first? alone whole.symm hk recognized, rfl⟩

/-! ## Readers -/

open Reader

/-- Two runs that take the same number of tokens and end in like ways: with results that are
related, or stuck with the same expectation. -/
def Reader.EndsMoved (f : Position → Position) (A : α → β → Prop) :
    Except Stuck (α × List Token) → Except Stuck (β × List Token) → Prop
  | .ok (a, rest), .ok (b, rest') => A a b ∧ rest' = rest.map (Token.moved f)
  | .error e, .error e' => e' = ⟨e.expected, e.rest.map (Token.moved f)⟩
  | _, _ => False

/-- What the first reader does with tokens, the second one does with them at other places. -/
def Together (f : Position → Position) (A : α → β → Prop) (r : Reader α) (r' : Reader β) : Prop :=
  ∀ ts, EndsMoved f A (r Terminal.recognizes ts)
    (r' Terminal.recognizes (ts.map (Token.moved f)))

/-- The reader does not decide by places. What it gives may hold some. -/
abbrev Blind (f : Position → Position) (r : Reader α) : Prop := Together f (fun _ _ => True) r r

section

variable {A : α → β → Prop} {B : γ → δ → Prop}

theorem Together.bind {r : Reader α} {r' : Reader β} {g : α → Reader γ} {g' : β → Reader δ}
    (h : Together f A r r') (hg : ∀ a b, A a b → Together f B (g a) (g' b)) :
    Together f B (r >>= g) (r' >>= g') := by
  intro ts
  have first := h ts
  rw [Reader.bind_apply, Reader.bind_apply]
  generalize r Terminal.recognizes ts = x at first
  generalize r' Terminal.recognizes (ts.map (Token.moved f)) = y at first
  rcases x with e | ⟨a, rest⟩ <;> rcases y with e' | ⟨b, rest'⟩
  · exact first
  · exact first.elim
  · exact first.elim
  · obtain ⟨related, rfl⟩ := first
    exact hg a b related rest

theorem together_pure {a : α} {b : β} (h : A a b) : Together f A (pure a) (pure b) :=
  fun _ => ⟨h, rfl⟩

theorem together_stuck (expected : Expected) :
    Together f A (stuck expected) (stuck expected) := fun _ => rfl

theorem together_sees (x : Terminal) : Together f Eq (sees x) (sees x) := by
  intro ts
  refine ⟨?_, rfl⟩
  cases ts with
  | nil => rfl
  | cons t ts => exact (x.recognizes_moved t).symm

theorem together_left : Together f Eq left left :=
  fun _ => ⟨(List.length_map (Token.moved f)).symm, rfl⟩

theorem blind_take (x : Terminal) : Blind f (take x) := by
  intro ts
  cases ts with
  | nil => rfl
  | cons t ts =>
    rw [List.map_cons, take, take, x.recognizes_moved t]
    by_cases ht : x.recognizes t
    · rw [if_pos ht, if_pos ht]
      exact ⟨trivial, rfl⟩
    · rw [if_neg ht, if_neg ht]
      rfl

theorem Together.ifSeen {looks : Reader Bool} {r s : Reader α} {r' s' : Reader β}
    (look : Together f Eq looks looks) (h : Together f A r r') (h' : Together f A s s') :
    Together f A (do if ← looks then r else s) (do if ← looks then r' else s') := by
  refine look.bind ?_
  rintro seen _ rfl
  cases seen
  · exact h'
  · exact h

theorem blind_word (text : String) : Blind f (word text) :=
  (blind_take _).bind fun _ _ _ => together_pure trivial

theorem blind_many {looks : Reader Bool} {item : Reader α} (look : Together f Eq looks looks)
    (h : Blind f item) : Blind f (many looks item) := by
  have within (n : Nat) : Blind f (manyWithin looks item n) := by
    induction n with
    | zero => exact together_pure trivial
    | succ n ih =>
      exact look.ifSeen (h.bind fun _ _ _ => ih.bind fun _ _ _ => together_pure trivial)
        (together_pure trivial)
  refine together_left.bind ?_
  rintro n _ rfl
  exact within n

end

namespace Grammar

/-! ## Values and expressions -/

theorem blind_leaf (k : Token.Kind) : Blind f (leaf k) :=
  (blind_take _).bind fun _ _ _ => together_pure trivial

theorem blind_value : Blind f value := by
  have only (k : Token.Kind) (g : Leaf → Value) : Blind f (do return g (← leaf k)) :=
    (blind_leaf k).bind fun _ _ _ => together_pure trivial
  exact (together_sees _).ifSeen (only _ _) <| (together_sees _).ifSeen (only _ _) <|
    (together_sees _).ifSeen (only _ _) <| (together_sees _).ifSeen (only _ _) <|
    (together_sees _).ifSeen (only _ _) (together_stuck _)

theorem together_seesValue : Together f Eq seesValue seesValue :=
  (together_sees _).bind fun _ _ ha => (together_sees _).bind fun _ _ hb =>
    (together_sees _).bind fun _ _ hc => (together_sees _).bind fun _ _ hd =>
    (together_sees _).bind fun _ _ he => together_pure (by rw [ha, hb, hc, hd, he])

theorem blind_math : Blind f math := by
  have item : Blind f (do return (← leaf .operator, ← value)) :=
    (blind_leaf _).bind fun _ _ _ => blind_value.bind fun _ _ _ => together_pure trivial
  exact (blind_word _).bind fun _ _ _ => blind_value.bind fun _ _ _ =>
    (blind_many (together_sees _) item).bind fun _ _ _ => (blind_word _).bind fun _ _ _ =>
    together_pure trivial

section

variable {item : Reader α} (h : Blind f item)
include h

theorem blind_commaSeparated : Blind f (commaSeparated item) := by
  have more : Blind f (do let _ ← word ","; item) := (blind_word _).bind fun _ _ _ => h
  exact h.bind fun _ _ _ => (blind_many (together_sees _) more).bind fun _ _ _ =>
    together_pure trivial

theorem blind_itemsBeforeBracket : Blind f (itemsBeforeBracket item) := by
  refine together_left.bind ?_
  rintro n _ rfl
  by_cases hn : n = 0
  · rw [if_pos hn]
    exact together_pure trivial
  · rw [if_neg hn]
    exact (together_sees _).ifSeen (together_pure trivial) (blind_commaSeparated h)

theorem blind_bracketed : Blind f (bracketed item) :=
  (blind_word _).bind fun _ _ _ => (blind_itemsBeforeBracket h).bind fun _ _ _ =>
    (blind_word _).bind fun _ _ _ => together_pure trivial

end

theorem blind_invocation : Blind f invocation :=
  (blind_word _).bind fun _ _ _ => (blind_leaf _).bind fun _ _ _ =>
    (blind_bracketed blind_value).bind fun _ _ _ => together_pure trivial

/-- Whether there is an expression does not depend on places either. -/
theorem together_expression :
    Together f (fun e e' => e.isSome = e'.isSome) expression? expression? :=
  (together_sees _).ifSeen (blind_math.bind fun _ _ _ => together_pure rfl) <|
    (together_sees _).ifSeen (blind_invocation.bind fun _ _ _ => together_pure rfl) <|
    together_seesValue.ifSeen (blind_value.bind fun _ _ _ => together_pure rfl) (together_pure rfl)

theorem blind_assignment : Blind f assignment := by
  refine (blind_leaf _).bind fun _ _ _ => (blind_word _).bind fun _ _ _ =>
    together_expression.bind fun value value' same => ?_
  cases value <;> cases value'
  · exact together_stuck _
  · cases same
  · cases same
  · exact (blind_word _).bind fun _ _ _ => together_pure trivial

theorem blind_comparison : Blind f comparison :=
  blind_value.bind fun _ _ _ => (blind_leaf _).bind fun _ _ _ => blind_value.bind fun _ _ _ =>
    together_pure trivial

theorem blind_condition : Blind f condition :=
  blind_comparison.bind fun _ _ _ => (together_sees _).ifSeen
    ((blind_leaf _).bind fun _ _ _ => blind_comparison.bind fun _ _ _ => together_pure trivial)
    (together_pure trivial)

/-! ## Instructions and blocks -/

section

variable {block : Reader Block} (h : Blind f block)
include h

theorem blind_enclosed : Blind f (enclosed block) :=
  (blind_word _).bind fun _ _ _ => h.bind fun _ _ _ => (blind_word _).bind fun _ _ _ =>
    together_pure trivial

theorem blind_loop : Blind f (loop block) :=
  (blind_word _).bind fun _ _ _ => (blind_word _).bind fun _ _ _ => h.bind fun _ _ _ =>
    (blind_word _).bind fun _ _ _ => (blind_word _).bind fun _ _ _ =>
    blind_condition.bind fun _ _ _ => (blind_word _).bind fun _ _ _ =>
    (blind_word _).bind fun _ _ _ => together_pure trivial

theorem blind_conditional : Blind f (conditional block) :=
  (blind_word _).bind fun _ _ _ => (blind_word _).bind fun _ _ _ =>
    blind_condition.bind fun _ _ _ => (blind_word _).bind fun _ _ _ =>
    (blind_enclosed h).bind fun _ _ _ => (together_sees _).ifSeen
      ((blind_word _).bind fun _ _ _ => (blind_enclosed h).bind fun _ _ _ => together_pure trivial)
      (together_pure trivial)

omit h in
theorem blind_giveBack : Blind f giveBack :=
  (blind_word _).bind fun _ _ _ => together_expression.bind fun _ _ _ =>
    (blind_word _).bind fun _ _ _ => together_pure trivial

theorem blind_instruction : Blind f (instruction block) :=
  (together_sees _).ifSeen (blind_assignment.bind fun _ _ _ => together_pure trivial) <|
    (together_sees _).ifSeen (blind_loop h) <| (together_sees _).ifSeen (blind_conditional h) <|
    (together_sees _).ifSeen blind_giveBack (together_stuck _)

end

theorem together_seesInstruction : Together f Eq seesInstruction seesInstruction :=
  (together_sees _).bind fun _ _ ha => (together_sees _).bind fun _ _ hb =>
    (together_sees _).bind fun _ _ hc => (together_sees _).bind fun _ _ hd =>
    together_pure (by rw [ha, hb, hc, hd])

theorem blind_blockWithin (n : Nat) : Blind f (blockWithin n) := by
  induction n with
  | zero => exact together_stuck _
  | succ n ih =>
    exact (blind_instruction ih).bind fun _ _ _ => together_seesInstruction.ifSeen
      (ih.bind fun _ _ _ => together_pure trivial) (together_pure trivial)

theorem blind_block : Blind f block := by
  refine together_left.bind ?_
  rintro n _ rfl
  exact blind_blockWithin n

/-! ## Programs -/

theorem blind_function : Blind f function :=
  (blind_word _).bind fun _ _ _ => (blind_leaf _).bind fun _ _ _ =>
    (blind_bracketed (blind_leaf _)).bind fun _ _ _ =>
    (blind_enclosed blind_block).bind fun _ _ _ => together_pure trivial

theorem blind_entryPoint : Blind f entryPoint :=
  (blind_word _).bind fun _ _ _ => (blind_word _).bind fun _ _ _ =>
    (blind_word _).bind fun _ _ _ => (blind_enclosed blind_block).bind fun _ _ _ =>
    together_pure trivial

theorem blind_program : Blind f program :=
  (blind_many (together_sees _) blind_assignment).bind fun _ _ _ =>
    (blind_many (together_sees _) blind_function).bind fun _ _ _ =>
    blind_entryPoint.bind fun _ _ _ => together_pure trivial

end Grammar

/-- Where the last token stands; without any, where a text starts. -/
def Token.lastPosition (ts : List Token) : Position :=
  (ts.getLast?.map (·.position)).getD .start

/-- The same error at the same token of two lists, or at the end of both. -/
inductive SyntaxError.Alongside (ts us : List Token) : SyntaxError → SyntaxError → Prop
  | unexpected {i : Nat} {t u : Token} (expected : Expected) (ht : ts[i]? = some t)
    (hu : us[i]? = some u) : Alongside ts us (.unexpected expected t) (.unexpected expected u)
  | trailing {i : Nat} {t u : Token} (ht : ts[i]? = some t) (hu : us[i]? = some u) :
    Alongside ts us (.trailing t) (.trailing u)
  | endOfInput (expected : Expected) :
    Alongside ts us (.endOfInput expected (Token.lastPosition ts))
      (.endOfInput expected (Token.lastPosition us))

namespace Program

variable {ts : List Token}

/-- Tokens at other places are a program too, or they have the same error. -/
theorem alongside_moved (f : Position → Position) (ts : List Token) :
    match ofTokens ts, ofTokens (ts.map (Token.moved f)) with
    | .ok _, .ok _ => True
    | .error e, .error e' => e.Alongside ts (ts.map (Token.moved f)) e'
    | _, _ => False := by
  have together := Grammar.blind_program (f := f) ts
  have found {e : SyntaxError} {t : Token} (h : ofTokens ts = .error e)
      (ht : e.found? = some t) : ∃ i : Nat, ts[i]? = some t := index_of_found h ht
  unfold ofTokens read at *
  generalize Grammar.program Terminal.recognizes ts = x at *
  generalize Grammar.program Terminal.recognizes (ts.map (Token.moved f)) = y at *
  rcases x with ⟨expected, rest⟩ | ⟨p, rest⟩ <;> rcases y with ⟨expected', rest'⟩ | ⟨p', rest'⟩
  · cases together
    cases rest with
    | nil => exact .endOfInput expected
    | cons t rest =>
      obtain ⟨i, ht⟩ := found rfl rfl
      exact .unexpected expected ht (Token.getElem?_moved ht)
  · exact together.elim
  · exact together.elim
  · obtain ⟨-, rfl⟩ := together
    cases rest with
    | nil => exact trivial
    | cons t rest =>
      obtain ⟨i, ht⟩ := found rfl rfl
      exact .trailing ht (Token.getElem?_moved ht)

/-- The nodes of a program stand where its tokens do. -/
theorem tree_moved {p p' : Program} (hp : ∀ t ∈ ts, t.Producible) (h : ofTokens ts = .ok p)
    (h' : ofTokens (ts.map (Token.moved f)) = .ok p') : p'.tree = p.tree.moved f := by
  obtain ⟨d, rfl, hd⟩ := derivation_of_ofTokens h
  obtain ⟨e, he, ht⟩ := derivation_of_ofTokens h'
  have produced : ∀ t ∈ (d.moved f).yield, t.Producible := by
    rw [d.yield_moved]
    exact List.forall_mem_map.mpr hp
  rw [← d.yield_moved] at he
  rw [← ht, ← hd, ← Derivation.eq_of_yield produced he.symm, d.tree_moved]

end Program

end Mamuth
