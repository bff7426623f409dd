-- What a tree yields. A walk from left to right over the tree of a program, with the fixed words
-- of each production put in, meets the tokens of the program one by one: none is lost, none comes
-- twice and none stands elsewhere. This holds for tokens of any kinds and texts, whether or not a
-- scan can give them.
import Mamuth.Proofs.Origins
import Mamuth.Proofs.Printing

namespace Mamuth

/-! ## The walk -/

/-- What a walk over a node meets: a fixed word of the production, or one of its parts. -/
inductive Piece (α : Type) where
  | word (text : String)
  | part (part : α)

def Piece.map (f : α → β) : Piece α → Piece β
  | word text => word text
  | part x => part (f x)

/-- The pieces of a node, with the fixed words that its production has around the parts. -/
def Node.Kind.pieces (kind : Node.Kind) (parts : List α) : List (Piece α) :=
  match kind, parts with
  | assignment, [target, value] => [.part target, .word "anotado", .part value, .word "."]
  | invocation, callee :: arguments =>
    .word "jutsu" :: .part callee :: .word "(" :: arguments.map .part ++ [.word ")"]
  | function, [name, body] =>
    [.word "POV", .part name, .word "(", .word ")", .word "xD", .part body, .word "v:"]
  | function, [name, parameters, body] =>
    [.word "POV", .part name, .word "(", .part parameters, .word ")", .word "xD", .part body,
      .word "v:"]
  | main, [body] =>
    [.word "maracuya", .word "(", .word ")", .word "xD", .part body, .word "v:"]
  | functionParameters, first :: rest | invocationArguments, first :: rest =>
    .part first :: rest.flatMap fun next => [.word ",", .part next]
  | loop, [body, condition] =>
    [.word "whenCuando", .word "xD", .part body, .word "but", .word "(", .part condition,
      .word ")", .word "v:"]
  | ifBranch, [condition, body] =>
    [.word "siuuu", .word "(", .part condition, .word ")", .word "xD", .part body, .word "v:"]
  | elseBranch, [body] => [.word "nimodo", .word "xD", .part body, .word "v:"]
  | .return, parts => .word "messirve" :: parts.map .part ++ [.word "."]
  | mathExpression, parts => .word "#" :: parts.map .part ++ [.word "#"]
  | _, parts => parts.map .part

attribute [local grind =] Node.Kind.pieces

/-- The tokens are what the pieces yield, in the same order. A fixed word yields the token with
its text, and a leaf the token with its text, its place and the kind of token that it stands for.
An inner node stands at the first of the tokens that its own pieces yield. -/
inductive Yields : List (Piece Tree) → List Token → Prop
  | nil : Yields [] []
  | word {text : String} {t : Token} {ps : List (Piece Tree)} {ts : List Token}
    (lexeme : t.lexeme = text) (rest : Yields ps ts) : Yields (.word text :: ps) (t :: ts)
  | leaf {root : Node} {t : Token} {ps : List (Piece Tree)} {ts : List Token}
    (kind : root.kind.token? = some t.kind) (content : root.content = some t.lexeme)
    (position : root.position = t.position) (rest : Yields ps ts) :
    Yields (.part (.node root []) :: ps) (t :: ts)
  | inner {root : Node} {children : List Tree} {t : Token} {us ts : List Token}
    {ps : List (Piece Tree)} (kind : root.kind.token? = none)
    (below : Yields (root.kind.pieces children) (t :: us)) (position : root.position = t.position)
    (rest : Yields ps ts) : Yields (.part (.node root children) :: ps) (t :: us ++ ts)

theorem Yields.append {ps qs : List (Piece Tree)} {ts us : List Token} (h : Yields ps ts)
    (h' : Yields qs us) : Yields (ps ++ qs) (ts ++ us) := by
  induction h with
  | nil => exact h'
  | word lexeme _ ih => exact .word lexeme ih
  | leaf kind content position _ ih => exact .leaf kind content position ih
  | inner kind below position _ _ ih =>
    rw [List.append_assoc]
    exact .inner kind below position ih

/-! ## Trees with other numbers -/

/-- The fixed words do not depend on what the parts are. -/
theorem Node.Kind.pieces_map (f : α → β) (kind : Node.Kind) (parts : List α) :
    kind.pieces (parts.map f) = (kind.pieces parts).map (Piece.map f) := by
  have plain (parts : List α) :
      (parts.map f).map Piece.part = (parts.map Piece.part).map (Piece.map f) := by
    simp [Piece.map, Function.comp_def]
  rcases parts with _ | ⟨a, _ | ⟨b, _ | ⟨c, _ | ⟨d, rest⟩⟩⟩⟩ <;> cases kind <;>
    first
    | rfl
    | simp [pieces, Piece.map, Function.comp_def, List.map_flatMap, List.flatMap_map]

/-- Numbers do not matter to what is yielded. -/
theorem Yields.of_unnumbered {ps qs : List (Piece Tree)} {ts : List Token} (h : Yields qs ts)
    (same : qs = ps.map (Piece.map Tree.unnumbered)) : Yields ps ts := by
  induction h generalizing ps with
  | nil =>
    obtain rfl := List.map_eq_nil_iff.mp same.symm
    exact .nil
  | word lexeme _ ih =>
    obtain ⟨p, ps, rfl, hp, hps⟩ := List.map_eq_cons_iff.mp same.symm
    cases p with
    | part t => cases hp
    | word text =>
      cases hp
      exact .word lexeme (ih hps.symm)
  | leaf kind content position _ ih =>
    obtain ⟨p, ps, rfl, hp, hps⟩ := List.map_eq_cons_iff.mp same.symm
    cases p with
    | word text => cases hp
    | part t =>
      obtain ⟨root, children⟩ := t
      rw [Piece.map, Tree.unnumbered_node] at hp
      injection hp with hp
      injection hp with hr hc
      obtain rfl := List.map_eq_nil_iff.mp hc
      subst hr
      exact .leaf kind content position (ih hps.symm)
  | inner kind _ position _ below ih =>
    obtain ⟨p, ps, rfl, hp, hps⟩ := List.map_eq_cons_iff.mp same.symm
    cases p with
    | word text => cases hp
    | part t =>
      obtain ⟨root, children⟩ := t
      rw [Piece.map, Tree.unnumbered_node] at hp
      injection hp with hp
      injection hp with hr hc
      subst hr hc
      exact .inner kind (below (Node.Kind.pieces_map _ _ _)) position (ih hps.symm)

/-! ## What derivations yield -/

namespace Derivation

/-- The fixed words and the trees of a derivation, from left to right. -/
def pieces : Derivation p → List (Piece Tree)
  | @terminal x token _ =>
    match x.node? with
    | some kind => [.part (.node ⟨0, kind, some token.lexeme, token.position, none⟩ [])]
    | none => [.word token.lexeme]
  | @construct n d =>
    match n.node? with
    | some kind =>
      [.part (.node ⟨0, kind, n.content d.trees, d.start?.getD .start, none⟩ d.trees)]
    | none => d.pieces
  | seq d e => d.pieces ++ e.pieces
  | one d => d.pieces
  | other d => d.pieces
  | absent => []
  | present d => d.pieces
  | done => []
  | more d e => d.pieces ++ e.pieces

attribute [local grind =] pieces

variable {p : Phrase}

/-- There is one tree, without any words around it. -/
def Single (d : Derivation p) : Prop := ∃ t, d.trees = [t] ∧ d.pieces = [.part t]

theorem single_terminal {x : Terminal} {kind : Node.Kind} (hx : x.node? = some kind) (t : Token)
    (h : x.recognizes t) : (terminal t h).Single := by
  refine ⟨_, trees_terminal hx t h, ?_⟩
  simp only [pieces, hx]

theorem single_construct {n : Nonterminal} {kind : Node.Kind} (hn : n.node? = some kind)
    (d : Derivation (.construct n)) : d.Single := by
  cases d with
  | construct d =>
    refine ⟨.node ⟨0, kind, n.content d.trees, d.start?.getD .start, none⟩ d.trees, ?_, ?_⟩
    · simp only [trees, hn]
    · simp only [pieces, hn]

theorem single_value (d : Derivation (.construct .value)) : d.Single :=
  match d with
  | .construct (.one (.terminal t h)) => single_terminal rfl t h
  | .construct (.other (.construct (.one (.terminal t h)))) => single_terminal rfl t h
  | .construct (.other (.construct (.other (.one (.terminal t h))))) => single_terminal rfl t h
  | .construct (.other (.construct (.other (.other (.one (.terminal t h)))))) =>
    single_terminal rfl t h
  | .construct (.other (.construct (.other (.other (.other (.terminal t h)))))) =>
    single_terminal rfl t h

theorem single_expression (d : Derivation Phrase.expression) : d.Single :=
  match d with
  | .one d => single_construct (n := .math) rfl d
  | .other (.one d) => single_construct (n := .invocation) rfl d
  | .other (.other d) => single_value d

@[simp] theorem pieces_seq {a b : Phrase} (d : Derivation a) (e : Derivation b) :
    (seq d e).pieces = d.pieces ++ e.pieces := rfl

@[simp] theorem trees_word {text : String} (t : Token) (h : (Terminal.word text).recognizes t) :
    (terminal t h).trees = [] := rfl

@[simp] theorem pieces_word {text : String} (t : Token)
    (h : (Terminal.word text).recognizes t) : (terminal t h).pieces = [.word text] := by
  have lexeme : t.lexeme = text := of_decide_eq_true h
  subst lexeme
  rfl

/-! ### Parts that come any number of times -/

theorem Single.pieces_eq {d : Derivation p} (h : d.Single) : d.pieces = d.trees.map .part := by
  obtain ⟨t, ht, hp⟩ := h
  rw [ht, hp]
  rfl

/-- Where each item is only trees, so are all of them. -/
theorem pieces_many {a : Phrase} (item : ∀ d : Derivation a, d.pieces = d.trees.map .part)
    (d : Derivation (.many a)) : d.pieces = d.trees.map .part := by
  match d with
  | .done => rfl
  | .more d e => rw [pieces, trees, List.map_append, item d, pieces_many item e]

/-- Items with a comma before each. -/
theorem pieces_commas {a : Phrase} (single : ∀ d : Derivation a, d.Single)
    (d : Derivation (.many (.seq (.word ",") a))) :
    d.pieces = d.trees.flatMap fun t => [.word ",", .part t] := by
  match d with
  | .done => rfl
  | .more (.seq (.terminal _ _) d) e =>
    obtain ⟨t, ht, hp⟩ := single d
    rw [pieces, trees, List.flatMap_append, pieces_commas single e]
    simp [ht, hp]

theorem pieces_listed {a : Phrase} {kind : Node.Kind}
    (hk : kind = .functionParameters ∨ kind = .invocationArguments)
    (single : ∀ d : Derivation a, d.Single) (d : Derivation (Phrase.listed a)) :
    kind.pieces d.trees = d.pieces := by
  match d with
  | .seq d e =>
    obtain ⟨t, ht, hp⟩ := single d
    rw [pieces_seq, trees_seq, ht, hp, pieces_commas single e]
    rcases hk with rfl | rfl <;> rfl

/-- An optional part leaves nothing or one tree. -/
theorem nothing_or_single {a : Phrase} (single : ∀ d : Derivation a, d.Single)
    (d : Derivation (.maybe a)) : (d.trees = [] ∧ d.pieces = []) ∨ d.Single := by
  match d with
  | .absent => exact .inl ⟨rfl, rfl⟩
  | .present d => exact .inr (single d)

/-! ### Productions -/

theorem pieces_program (d : Derivation Nonterminal.program.production) :
    Node.Kind.pieces .program d.trees = d.pieces := by
  match d with
  | .seq d (.seq e f) =>
    have assignment := fun d => (single_construct (n := .assignment) rfl d).pieces_eq
    have function := fun d => (single_construct (n := .function) rfl d).pieces_eq
    have main := (single_construct (n := .main) rfl f).pieces_eq
    simp [pieces_many assignment d, pieces_many function e, main, Node.Kind.pieces]

theorem pieces_assignment (d : Derivation Nonterminal.assignment.production) :
    Node.Kind.pieces .assignment d.trees = d.pieces := by
  match d with
  | .seq (.terminal t h) (.seq (.terminal _ _) (.seq d (.terminal _ _))) =>
    obtain ⟨target, ht, hp⟩ := single_terminal (x := .kind .identifier) rfl t h
    obtain ⟨value, ht', hp'⟩ := single_expression d
    simp [ht, hp, ht', hp', Node.Kind.pieces]

theorem pieces_invocation (d : Derivation Nonterminal.invocation.production) :
    Node.Kind.pieces .invocation d.trees = d.pieces := by
  match d with
  | .seq (.terminal _ _) (.seq (.terminal t h) (.seq (.terminal _ _) (.seq d (.terminal _ _)))) =>
    obtain ⟨callee, ht, hp⟩ := single_terminal (x := .kind .identifier) rfl t h
    rcases nothing_or_single (single_construct (n := .arguments) rfl) d with
      ⟨ht', hp'⟩ | ⟨arguments, ht', hp'⟩ <;> simp [ht, hp, ht', hp', Node.Kind.pieces]

theorem pieces_function (d : Derivation Nonterminal.function.production) :
    Node.Kind.pieces .function d.trees = d.pieces := by
  match d with
  | .seq (.terminal _ _) (.seq (.terminal t h) (.seq (.terminal _ _) (.seq d
      (.seq (.terminal _ _) (.seq (.terminal _ _) (.seq e (.terminal _ _))))))) =>
    obtain ⟨name, ht, hp⟩ := single_terminal (x := .kind .identifier) rfl t h
    obtain ⟨body, hb, hpb⟩ := single_construct (n := .block) rfl e
    rcases nothing_or_single (single_construct (n := .parameters) rfl) d with
      ⟨ht', hp'⟩ | ⟨parameters, ht', hp'⟩ <;> simp [ht, hp, ht', hp', hb, hpb, Node.Kind.pieces]

theorem pieces_main (d : Derivation Nonterminal.main.production) :
    Node.Kind.pieces .main d.trees = d.pieces := by
  match d with
  | .seq (.terminal _ _) (.seq (.terminal _ _) (.seq (.terminal _ _) (.seq (.terminal _ _)
      (.seq d (.terminal _ _))))) =>
    obtain ⟨body, hb, hp⟩ := single_construct (n := .block) rfl d
    simp [hb, hp, Node.Kind.pieces]

theorem pieces_parameters (d : Derivation Nonterminal.parameters.production) :
    Node.Kind.pieces .functionParameters d.trees = d.pieces := by
  have single (d : Derivation (.kind .identifier)) : d.Single :=
    match d with
    | .terminal t h => single_terminal rfl t h
  exact pieces_listed (.inl rfl) single d

theorem pieces_block (d : Derivation Nonterminal.block.production) :
    Node.Kind.pieces .instructionBlock d.trees = d.pieces := by
  match d with
  | .seq d e =>
    have single := fun d => (single_construct (n := .instruction) rfl d).pieces_eq
    simp [single d, pieces_many single e, Node.Kind.pieces]

theorem pieces_instruction (d : Derivation Nonterminal.instruction.production) :
    Node.Kind.pieces .instruction d.trees = d.pieces := by
  have single : d.Single := by
    match d with
    | .one d => exact single_construct (n := .loop) rfl d
    | .other (.one d) => exact single_construct (n := .assignment) rfl d
    | .other (.other (.one d)) => exact single_construct (n := .conditional) rfl d
    | .other (.other (.other d)) => exact single_construct (n := .return) rfl d
  rw [single.pieces_eq]
  rfl

theorem pieces_loop (d : Derivation Nonterminal.loop.production) :
    Node.Kind.pieces .loop d.trees = d.pieces := by
  match d with
  | .seq (.terminal _ _) (.seq (.terminal _ _) (.seq d (.seq (.terminal _ _)
      (.seq (.terminal _ _) (.seq e (.seq (.terminal _ _) (.terminal _ _))))))) =>
    obtain ⟨body, hb, hp⟩ := single_construct (n := .block) rfl d
    obtain ⟨condition, hc, hp'⟩ := single_construct (n := .condition) rfl e
    simp [hb, hp, hc, hp', Node.Kind.pieces]

theorem pieces_conditional (d : Derivation Nonterminal.conditional.production) :
    Node.Kind.pieces .conditional d.trees = d.pieces := by
  match d with
  | .seq d e =>
    have branch := (single_construct (n := .ifBranch) rfl d).pieces_eq
    rcases nothing_or_single (single_construct (n := .elseBranch) rfl) e with
      ⟨ht, hp⟩ | ⟨other, ht, hp⟩ <;> simp [branch, ht, hp, Node.Kind.pieces]

theorem pieces_ifBranch (d : Derivation Nonterminal.ifBranch.production) :
    Node.Kind.pieces .ifBranch d.trees = d.pieces := by
  match d with
  | .seq (.terminal _ _) (.seq (.terminal _ _) (.seq d (.seq (.terminal _ _)
      (.seq (.terminal _ _) (.seq e (.terminal _ _)))))) =>
    obtain ⟨condition, hc, hp⟩ := single_construct (n := .condition) rfl d
    obtain ⟨body, hb, hp'⟩ := single_construct (n := .block) rfl e
    simp [hc, hp, hb, hp', Node.Kind.pieces]

theorem pieces_elseBranch (d : Derivation Nonterminal.elseBranch.production) :
    Node.Kind.pieces .elseBranch d.trees = d.pieces := by
  match d with
  | .seq (.terminal _ _) (.seq (.terminal _ _) (.seq d (.terminal _ _))) =>
    obtain ⟨body, hb, hp⟩ := single_construct (n := .block) rfl d
    simp [hb, hp, Node.Kind.pieces]

theorem pieces_condition (d : Derivation Nonterminal.condition.production) :
    Node.Kind.pieces .conditionalExpression d.trees = d.pieces := by
  match d with
  | .seq d e =>
    have first := (single_construct (n := .comparison) rfl d).pieces_eq
    match e with
    | .absent => simp [first, pieces, trees, Node.Kind.pieces]
    | .present (.seq (.terminal t h) e) =>
      have sign := (single_terminal (x := .kind .logicalOperator) rfl t h).pieces_eq
      have second := (single_construct (n := .comparison) rfl e).pieces_eq
      rw [pieces_seq, pieces, trees_seq, trees, pieces_seq, trees_seq, first, sign, second]
      simp [Node.Kind.pieces]

theorem pieces_comparison (d : Derivation Nonterminal.comparison.production) :
    Node.Kind.pieces .comparison d.trees = d.pieces := by
  match d with
  | .seq d (.seq (.terminal t h) e) =>
    have sign := (single_terminal (x := .kind .comparator) rfl t h).pieces_eq
    simp [(single_value d).pieces_eq, sign, (single_value e).pieces_eq, Node.Kind.pieces]

theorem pieces_return (d : Derivation Nonterminal.return.production) :
    Node.Kind.pieces .return d.trees = d.pieces := by
  match d with
  | .seq (.terminal _ _) (.seq d (.terminal _ _)) =>
    rcases nothing_or_single single_expression d with ⟨ht, hp⟩ | ⟨value, ht, hp⟩ <;>
      simp [ht, hp, Node.Kind.pieces]

theorem pieces_math (d : Derivation Nonterminal.math.production) :
    Node.Kind.pieces .mathExpression d.trees = d.pieces := by
  match d with
  | .seq (.terminal _ _) (.seq d (.seq e (.terminal _ _))) =>
    have operand (d : Derivation (.seq (.kind .operator) (.construct .value))) :
        d.pieces = d.trees.map .part := by
      match d with
      | .seq (.terminal t h) d =>
        have sign := (single_terminal (x := .kind .operator) rfl t h).pieces_eq
        rw [pieces_seq, trees_seq, List.map_append, sign, (single_value d).pieces_eq]
    simp [(single_value d).pieces_eq, pieces_many operand e, Node.Kind.pieces]

/-- A production puts its fixed words around the trees of its parts. -/
theorem pieces_production {n : Nonterminal} {kind : Node.Kind} (hn : n.node? = some kind)
    (d : Derivation n.production) : kind.pieces d.trees = d.pieces := by
  cases n <;> cases hn
  case program => exact pieces_program d
  case assignment => exact pieces_assignment d
  case invocation => exact pieces_invocation d
  case function => exact pieces_function d
  case main => exact pieces_main d
  case parameters => exact pieces_parameters d
  case arguments => exact pieces_listed (.inr rfl) single_value d
  case block => exact pieces_block d
  case instruction => exact pieces_instruction d
  case loop => exact pieces_loop d
  case conditional => exact pieces_conditional d
  case ifBranch => exact pieces_ifBranch d
  case elseBranch => exact pieces_elseBranch d
  case condition => exact pieces_condition d
  case comparison => exact pieces_comparison d
  case «return» => exact pieces_return d
  case math => exact pieces_math d

/-- What is spelled is what the fixed words and the trees yield. -/
theorem yields (d : Derivation p) : Yields d.pieces d.yield := by
  induction d with
  | @terminal x token h =>
    unfold pieces
    cases hx : x.node? with
    | none => exact .word rfl .nil
    | some kind =>
      have hk : kind.token? = some token.kind := by
        cases x with
        | word text => cases hx
        | kind k =>
          obtain rfl : token.kind = k := of_decide_eq_true h
          generalize token.kind = k at hx
          cases k <;> cases hx <;> rfl
      exact .leaf hk rfl rfl .nil
  | @construct n d ih =>
    unfold pieces
    cases hn : n.node? with
    | none => exact ih
    | some kind =>
      have hk : kind.token? = none := by cases n <;> cases hn <;> rfl
      obtain ⟨t, ts, ht⟩ := List.exists_cons_of_ne_nil (d.yield_ne_nil n.not_nullable)
      have below : Yields (kind.pieces d.trees) (t :: ts) := by
        rw [d.pieces_production hn, ← ht]
        exact ih
      have start : d.start?.getD .start = t.position := by
        rw [start?, ht]
        rfl
      rw [yield, ht, ← List.append_nil (t :: ts)]
      exact .inner hk below start .nil
  | seq d e ih ih' => exact ih.append ih'
  | one d ih => exact ih
  | other d ih => exact ih
  | absent => exact .nil
  | present d ih => exact ih
  | done => exact .nil
  | more d e ih ih' => exact ih.append ih'

end Derivation

/-! ## What programs yield -/

theorem Program.yields_tree {tokens : List Token} {p : Program} (h : ofTokens tokens = .ok p) :
    Yields [.part p.tree] tokens := by
  obtain ⟨d, rfl, ht⟩ := derivation_of_ofTokens h
  obtain ⟨t, single, pieces⟩ := Derivation.single_construct (n := .program) rfl d
  rw [Derivation.trees_eq_unnumbered ht] at single
  have yields := d.yields
  rw [pieces, ← List.singleton_inj.mp single] at yields
  exact yields.of_unnumbered rfl

theorem Program.type_of_mem_nodes {tokens : List Token} {p : Program}
    (h : ofTokens tokens = .ok p) : ∀ n ∈ p.tree.nodes, n.type = none := by
  intro n hn
  obtain ⟨u, hu, rfl⟩ := List.mem_map.mp hn
  have type := (ofTokens_subtrees h u hu).type_root
  rwa [Tree.root_unnumbered] at type

/-- The words of pieces: their fixed words and the texts of the leaves. -/
def Piece.words : Piece Tree → List String
  | word text => [text]
  | part t => t.words

theorem Node.words_pieces {root : Node} (children : List Tree) (hk : root.kind.token? = none) :
    root.words (children.map Tree.words) = (root.kind.pieces children).flatMap Piece.words := by
  obtain ⟨id, kind, content, position, type⟩ := root
  change kind.token? = none at hk
  rcases children with _ | ⟨a, _ | ⟨b, _ | ⟨c, _ | ⟨d, rest⟩⟩⟩⟩ <;> cases kind <;>
    first
    | exact absurd hk (by decide)
    | simp [words, Node.Kind.pieces, Piece.words, Node.Kind.isLeaf, List.flatMap_map,
        List.flatMap_assoc, List.flatten_eq_flatMap]

/-- The tokens have the words of the pieces, in their order. -/
theorem Yields.words {ps : List (Piece Tree)} {ts : List Token} (h : Yields ps ts) :
    ps.flatMap Piece.words = ts.map (·.lexeme) := by
  induction h with
  | nil => rfl
  | word lexeme _ ih => simp [Piece.words, lexeme, ih]
  | @leaf root t ps ts kind content _ _ ih =>
    have text : root.words [] = [t.lexeme] := by
      obtain ⟨id, k, content', position, type⟩ := root
      change k.token? = _ at kind
      cases k <;> simp_all [Node.words, Node.Kind.isLeaf, Node.name, Node.Kind.token?]
    simp [Piece.words, text, ih]
  | inner kind _ _ _ below ih =>
    rw [List.flatMap_cons, Piece.words, Tree.words_node, Node.words_pieces _ kind, below, ih,
      List.map_append]

/-- What is read has the children that its kinds want, no types yet, and yields the tokens, one
by one and in their order. -/
theorem Program.tree_yields_tokens {tokens : List Token} {p : Program}
    (h : ofTokens tokens = .ok p) :
    p.tree.LaidOut ∧ (∀ n ∈ p.tree.nodes, n.type = none) ∧ Yields [.part p.tree] tokens ∧
      p.tree.words = tokens.map (·.lexeme) := by
  have yields := yields_tree h
  have words : p.tree.words ++ [] = tokens.map (·.lexeme) := yields.words
  rw [List.append_nil] at words
  exact ⟨p.laidOut_tree, type_of_mem_nodes h, yields, words⟩

/-- No scan gives these tokens. A fixed word is told by its text alone, and a value by its kind
alone. -/
theorem Program.tree_yields_tokens_mislabelled :
    let tokens : List Token := [⟨.text, "maracuya", ⟨4, 2⟩⟩, ⟨.integer, "(", ⟨3, 9⟩⟩,
      ⟨.unrecognized, ")", ⟨3, 9⟩⟩, ⟨.keyword, "xD", ⟨1, 12⟩⟩, ⟨.loop, "messirve", ⟨1, 15⟩⟩,
      ⟨.integer, "v:", ⟨1, 23⟩⟩, ⟨.float, ".", ⟨1, 25⟩⟩, ⟨.invocation, "v:", ⟨0, 0⟩⟩]
    ∃ p, ofTokens tokens = .ok p ∧ p.tree.LaidOut ∧ (∀ n ∈ p.tree.nodes, n.type = none) ∧
      Yields [.part p.tree] tokens ∧ p.tree.words = tokens.map (·.lexeme) := by
  intro tokens
  have read : ∃ p, ofTokens tokens = .ok p := ⟨_, rfl⟩
  obtain ⟨p, h⟩ := read
  exact ⟨p, h, tree_yields_tokens h⟩

end Mamuth
