-- Printing a tree and compiling what was printed. The words of a tree are those of its
-- leaves with the fixed words of the grammar around them. Where the leaves are spelled as
-- their kinds want it, the printed text is scanned into these words, and they are read
-- into the same tree.
import Mamuth.Proofs.Layout
import Mamuth.Proofs.Productions
import Mamuth.Proofs.WordLines

namespace Mamuth

/-! ## Words -/

/-- The kind of the tokens that give a leaf. -/
def Node.Kind.token? : Node.Kind → Option Token.Kind
  | identifier => some .identifier
  | integer => some .integer
  | float => some .float
  | boolean => some .boolean
  | text => some .text
  | operator => some .operator
  | logicalOperator => some .logicalOperator
  | comparator => some .comparator
  | _ => none

/-- The words of a node, from those of its children. -/
def Node.words (root : Node) (parts : List (List String)) : List String :=
  match root.kind, parts with
  | .assignment, [target, value] => target ++ "anotado" :: value ++ ["."]
  | .invocation, callee :: arguments =>
    "jutsu" :: callee ++ "(" :: arguments.flatten ++ [")"]
  | .function, [name, body] => "POV" :: name ++ "(" :: ")" :: "xD" :: body ++ ["v:"]
  | .function, [name, parameters, body] =>
    "POV" :: name ++ "(" :: parameters ++ ")" :: "xD" :: body ++ ["v:"]
  | .main, [body] => "maracuya" :: "(" :: ")" :: "xD" :: body ++ ["v:"]
  | .functionParameters, first :: rest | .invocationArguments, first :: rest =>
    first ++ rest.flatMap fun part => "," :: part
  | .loop, [body, condition] =>
    "whenCuando" :: "xD" :: body ++ "but" :: "(" :: condition ++ [")", "v:"]
  | .ifBranch, [condition, body] =>
    "siuuu" :: "(" :: condition ++ ")" :: "xD" :: body ++ ["v:"]
  | .elseBranch, [body] => "nimodo" :: "xD" :: body ++ ["v:"]
  | .return, parts => "messirve" :: parts.flatten ++ ["."]
  | .mathExpression, parts => "#" :: parts.flatten ++ ["#"]
  | kind, parts => if kind.isLeaf then [root.name] else parts.flatten

namespace Tree

mutual

/-- The words that spell a tree, in the order of the grammar. -/
def words : Tree → List String
  | node root children => root.words (wordsAll children)

def wordsAll : List Tree → List (List String)
  | [] => []
  | t :: ts => words t :: wordsAll ts

end

theorem wordsAll_eq (ts : List Tree) : wordsAll ts = ts.map words := by
  induction ts with
  | nil => rfl
  | cons t ts ih => rw [wordsAll, ih, List.map_cons]

@[simp] theorem words_node (root : Node) (children : List Tree) :
    (node root children).words = root.words (children.map words) := by
  rw [words, wordsAll_eq]

/-- The tree as a source text, with one word on each line. -/
def source (t : Tree) : String := Lexeme.lines t.words

/-- Every leaf is spelled as its kind wants it. -/
def WellSpelled (t : Tree) : Prop :=
  ∀ u ∈ t.subtrees, ∀ k ∈ u.root.kind.token?, k.allows u.root.name

instance (t : Tree) : Decidable t.WellSpelled := inferInstanceAs (Decidable (∀ u ∈ t.subtrees, _))

theorem WellSpelled.child {root : Node} {children : List Tree}
    (h : (node root children).WellSpelled) : ∀ c ∈ children, c.WellSpelled := by
  intro c hc u hu
  apply h u
  rw [subtrees, List.mem_cons]
  exact Or.inr (mem_subtreesAll.mpr ⟨c, hc, hu⟩)

theorem WellSpelled.root {root : Node} {children : List Tree}
    (h : (node root children).WellSpelled) : ∀ k ∈ root.kind.token?, k.allows root.name :=
  h (node root children) (by simp [subtrees])

end Tree

/-- What holds of the words of the children, of the fixed words and of the text of a leaf holds
of all words of a node. -/
theorem Node.forall_words {P : String → Prop} {root : Node} {parts : List (List String)}
    (hp : ∀ part ∈ parts, ∀ w ∈ part, P w) (hf : ∀ w ∈ Lexeme.fixedWords, P w)
    (hl : root.kind.isLeaf → P root.name) : ∀ w ∈ root.words parts, P w := by
  have all : ∀ w ∈ parts.flatten, P w := by
    intro w hw
    obtain ⟨part, hpart, hw⟩ := List.mem_flatten.mp hw
    exact hp part hpart w hw
  simp only [Lexeme.fixedWords, List.forall_mem_cons] at hf
  unfold Node.words
  split
  case h_13 =>
    split
    · rename_i leaf
      exact List.forall_mem_singleton.mpr (hl leaf)
    · exact all
  all_goals
    simp only [List.forall_mem_append, List.forall_mem_cons, List.forall_mem_flatMap] at hp ⊢
    grind

open Lexeme in
/-- Every word of a tree that is spelled well is one token on a line of its own. -/
theorem Tree.alone_words (t : Tree) (hl : t.LaidOut) (hw : t.WellSpelled) :
    ∀ w ∈ t.words, ∃ k, Alone w k := by
  induction t using Tree.ofChildren with
  | step root children ih =>
    rw [words_node]
    refine Node.forall_words ?_ alone_fixed fun leaf => ?_
    · intro part hpart w hword
      obtain ⟨c, hc, rfl⟩ := List.mem_map.mp hpart
      exact ih c hc (hl.child c hc) (hw.child c hc) w hword
    · cases hk : root.kind <;> rw [hk] at leaf <;> first | exact absurd leaf (by decide) | skip
      all_goals exact ⟨_, alone_of_allows (hw.root _ (by rw [hk]; rfl))⟩

/-! ## Words of a phrase -/

/-- Tokens with these words have a derivation, and it stands for these trees. -/
def Spelled (p : Phrase) (ws : List String) (trees : List Tree) : Prop :=
  ∀ ts : List Token, ts.map (·.lexeme) = ws → (∀ t ∈ ts, Lexeme.Alone t.lexeme t.kind) →
    ∃ d : Derivation p, d.yield = ts ∧ d.trees.map Tree.bare = trees.map Tree.bare

theorem Lexeme.Alone.unique {w : String} {j k : Token.Kind} (hj : Alone w j) (hk : Alone w k) :
    j = k := by
  have := hj.scan.symm.trans hk.scan
  cases this
  rfl

namespace Spelled

variable {a b : Phrase} {ws vs : List String} {xs ys : List Tree}

theorem word (w : String) : Spelled (.word w) [w] [] := by
  intro ts hw _
  obtain ⟨t, rfl, ht⟩ := List.map_eq_singleton_iff.mp hw
  exact ⟨.terminal t (decide_eq_true ht), rfl, rfl⟩

theorem leaf {root : Node} {k : Token.Kind} (hk : root.kind.token? = some k)
    (hc : root.content.isSome) (hw : k.allows root.name) :
    Spelled (.kind k) [root.name] [.node root []] := by
  intro ts hts alone
  obtain ⟨t, rfl, ht⟩ := List.map_eq_singleton_iff.mp hts
  have kind : t.kind = k := by
    have := alone t List.mem_cons_self
    rw [ht] at this
    exact this.unique (Lexeme.alone_of_allows hw)
  have recognized : (Terminal.kind k).recognizes t := decide_eq_true kind
  refine ⟨.terminal t recognized, rfl, ?_⟩
  obtain ⟨content, hcontent⟩ := Option.isSome_iff_exists.mp hc
  have name : t.lexeme = content := by rw [ht, Node.name, hcontent]; rfl
  have node : (Terminal.kind k).node? = some root.kind := by
    cases hr : root.kind <;> rw [hr] at hk <;> cases hk <;> rfl
  rw [Derivation.trees_terminal node]
  simp [name, hcontent]

theorem seq (h : Spelled a ws xs) (h' : Spelled b vs ys) :
    Spelled (.seq a b) (ws ++ vs) (xs ++ ys) := by
  intro ts hts alone
  obtain ⟨us, us', rfl, hu, hu'⟩ := List.map_eq_append_iff.mp hts
  rw [List.forall_mem_append] at alone
  obtain ⟨d, rfl, hd⟩ := h us hu alone.1
  obtain ⟨e, rfl, he⟩ := h' us' hu' alone.2
  exact ⟨.seq d e, rfl, by rw [Derivation.trees_seq, List.map_append, hd, he, List.map_append]⟩

theorem one (h : Spelled a ws xs) : Spelled (.either a b) ws xs := by
  intro ts hts alone
  obtain ⟨d, hd, hx⟩ := h ts hts alone
  exact ⟨.one d, hd, hx⟩

theorem other (h : Spelled b ws xs) : Spelled (.either a b) ws xs := by
  intro ts hts alone
  obtain ⟨d, hd, hx⟩ := h ts hts alone
  exact ⟨.other d, hd, hx⟩

theorem absent : Spelled (.maybe a) [] [] := by
  intro ts hts _
  exact ⟨.absent, (List.map_eq_nil_iff.mp hts).symm, rfl⟩

theorem present (h : Spelled a ws xs) : Spelled (.maybe a) ws xs := by
  intro ts hts alone
  obtain ⟨d, hd, hx⟩ := h ts hts alone
  exact ⟨.present d, hd, hx⟩

theorem done : Spelled (.many a) [] [] := by
  intro ts hts _
  exact ⟨.done, (List.map_eq_nil_iff.mp hts).symm, rfl⟩

theorem more (h : Spelled a ws xs) (h' : Spelled (.many a) vs ys) :
    Spelled (.many a) (ws ++ vs) (xs ++ ys) := by
  intro ts hts alone
  obtain ⟨us, us', rfl, hu, hu'⟩ := List.map_eq_append_iff.mp hts
  rw [List.forall_mem_append] at alone
  obtain ⟨d, rfl, hd⟩ := h us hu alone.1
  obtain ⟨e, rfl, he⟩ := h' us' hu' alone.2
  exact ⟨.more d e, rfl, by rw [Derivation.trees, List.map_append, hd, he, List.map_append]⟩

/-- Any number of items, with words before each of them or not. -/
theorem many {ts : List Tree} {words : Tree → List String}
    (h : ∀ t ∈ ts, Spelled a (words t) [t]) : Spelled (.many a) (ts.flatMap words) ts := by
  induction ts with
  | nil => exact done
  | cons t ts ih =>
    rw [List.forall_mem_cons] at h
    exact more h.1 (ih h.2)

/-- Values and literals leave no nodes. -/
theorem transparent {n : Nonterminal} (hn : n.node? = none) (h : Spelled n.production ws xs) :
    Spelled (.construct n) ws xs := by
  intro ts hts alone
  obtain ⟨d, hd, hx⟩ := h ts hts alone
  refine ⟨.construct d, hd, ?_⟩
  rw [Derivation.trees, hn]
  exact hx

theorem construct {n : Nonterminal} {root : Node} {children : List Tree}
    (hn : n.node? = some root.kind) (hc : root.content = n.content children)
    (h : Spelled n.production ws children) :
    Spelled (.construct n) ws [.node root children] := by
  intro ts hts alone
  obtain ⟨d, hd, hx⟩ := h ts hts alone
  refine ⟨.construct d, hd, ?_⟩
  have content : n.content d.trees = n.content children := by
    unfold Nonterminal.content
    rw [← Tree.head_content_bare d.trees, hx, Tree.head_content_bare]
  rw [Derivation.trees, hn]
  simp [content, hc, hx]

theorem congr (h : Spelled a ws xs) (hw : ws = vs) (hx : xs = ys) : Spelled a vs ys :=
  hw ▸ hx ▸ h

end Spelled

/-! ## Trees -/

/-- What spells a node of the kind. -/
def Node.Kind.phrase : Node.Kind → Phrase
  | program => .construct .program
  | assignment => .construct .assignment
  | function => .construct .function
  | main => .construct .main
  | invocation => .construct .invocation
  | functionParameters => .construct .parameters
  | invocationArguments => .construct .arguments
  | instruction => .construct .instruction
  | instructionBlock => .construct .block
  | loop => .construct .loop
  | conditional => .construct .conditional
  | ifBranch => .construct .ifBranch
  | elseBranch => .construct .elseBranch
  | conditionalExpression => .construct .condition
  | comparison => .construct .comparison
  | «return» => .construct .return
  | mathExpression => .construct .math
  | text => .kind .text
  | integer => .kind .integer
  | float => .kind .float
  | boolean => .kind .boolean
  | operator => .kind .operator
  | logicalOperator => .kind .logicalOperator
  | comparator => .kind .comparator
  | identifier => .kind .identifier

attribute [local simp] Node.Kind.admits Node.words

/-- A tree is spelled by its words, as its kind says. -/
def Tree.IsSpelled (t : Tree) : Prop := Spelled t.root.kind.phrase t.words [t]

theorem Tree.IsSpelled.kind {t : Tree} {k : Node.Kind} (h : t.IsSpelled) (hk : t.root.kind = k) :
    Spelled k.phrase t.words [t] :=
  hk ▸ h

theorem Tree.IsSpelled.value {t : Tree} (h : t.IsSpelled) (hk : t.root.kind.isValue) :
    Spelled (.construct .value) t.words [t] := by
  apply Spelled.transparent rfl
  unfold Tree.IsSpelled at h
  cases hr : t.root.kind <;> rw [hr] at h hk <;> first | exact absurd hk (by decide) | skip
  case identifier => exact h.one
  all_goals refine Spelled.other (Spelled.transparent rfl ?_)
  case text => exact h.one
  case integer => exact h.one.other
  case float => exact h.one.other.other
  case boolean => exact h.other.other.other

theorem Tree.IsSpelled.expression {t : Tree} (h : t.IsSpelled) (hk : t.root.kind.isExpression) :
    Spelled .expression t.words [t] := by
  simp only [Node.Kind.isExpression, Bool.or_eq_true, decide_eq_true_eq] at hk
  rcases hk with (hk | hk) | hk
  · exact (h.kind hk).one
  · exact (h.kind hk).one.other
  · exact (h.value hk).other.other

/-- Constructs with nodes have inner ones, and the names are where the kinds say. -/
theorem Nonterminal.of_node? {n : Nonterminal} {kind : Node.Kind} (h : n.node? = some kind) :
    kind.isLeaf = false ∧
      (kind = .function ∨ kind = .invocation ↔ n = .function ∨ n = .invocation) := by
  cases n <;> cases h <;> decide

theorem Spelled.node {n : Nonterminal} {root : Node} {children : List Tree} {ws : List String}
    (hl : (Tree.node root children).LaidOut) (hn : n.node? = some root.kind)
    (h : Spelled n.production ws children) : Spelled (.construct n) ws [.node root children] := by
  obtain ⟨leaf, named⟩ := Nonterminal.of_node? hn
  refine Spelled.construct hn ?_ h
  rw [hl.content leaf, Nonterminal.content]
  simp only [named]

theorem Spelled.listed {a : Phrase} {t : Tree} {ts : List Tree} (h : Spelled a t.words [t])
    (hs : ∀ u ∈ ts, Spelled a u.words [u]) :
    Spelled (.listed a) (t.words ++ ts.flatMap fun u => "," :: u.words) (t :: ts) :=
  h.seq (Spelled.many fun u hu => (Spelled.word ",").seq (hs u hu))

theorem Spelled.inTurn {ts : List Tree} (hk : Node.Kind.inTurn (ts.map (·.root.kind)))
    (on : ∀ t ∈ ts, t.IsSpelled) :
    Spelled (.many (.seq (.kind .operator) (.construct .value))) (ts.flatMap Tree.words) ts := by
  match ts with
  | [] => exact Spelled.done
  | [_] => cases hk
  | sign :: value :: rest =>
    simp only [List.map_cons, Node.Kind.inTurn, Bool.and_eq_true, decide_eq_true_eq] at hk
    simp only [List.forall_mem_cons] at on
    obtain ⟨⟨hs, hv⟩, hr⟩ := hk
    have operator : Spelled (.kind .operator) sign.words [sign] := on.1.kind hs
    refine ((operator.seq (on.2.1.value hv)).more (inTurn hr on.2.2)).congr ?_ rfl
    simp

section

variable {root : Node} {children : List Tree} (hl : (Tree.node root children).LaidOut)
  (on : ∀ c ∈ children, c.IsSpelled)
include hl on

theorem Spelled.program (hk : root.kind = .program) :
    Spelled (.construct .program) (Tree.node root children).words [.node root children] := by
  rw [Tree.words_node]
  obtain ⟨as, fs, main, rfl, ha, hf, hm⟩ := hl.program hk
  have assignments := Spelled.many fun a h => (on a (by simp [h])).kind (ha a h)
  have functions := Spelled.many fun f h => (on f (by simp [h])).kind (hf f h)
  apply Spelled.node hl (by rw [hk]; rfl)
  refine (assignments.seq (functions.seq ((on main (by simp)).kind hm))).congr ?_ rfl
  simp [hk, Node.Kind.isLeaf, List.flatMap_def]

theorem Spelled.assignment (hk : root.kind = .assignment) :
    Spelled (.construct .assignment) (Tree.node root children).words [.node root children] := by
  rw [Tree.words_node]
  obtain ⟨target, value, rfl, ht, hv⟩ := hl.assignment hk
  apply Spelled.node hl (by rw [hk]; rfl)
  refine (((on target (by simp)).kind ht).seq ((Spelled.word _).seq
    (((on value (by simp)).expression hv).seq (Spelled.word _)))).congr ?_ rfl
  simp [hk]

theorem Spelled.function (hk : root.kind = .function) :
    Spelled (.construct .function) (Tree.node root children).words [.node root children] := by
  rw [Tree.words_node]
  apply Spelled.node hl (by rw [hk]; rfl)
  rcases hl.function hk with h | h
  · obtain ⟨name, body, rfl, hn, hb⟩ := Tree.exists_pair h
    refine ((Spelled.word _).seq (((on name (by simp)).kind hn).seq ((Spelled.word _).seq
      (Spelled.absent.seq ((Spelled.word _).seq ((Spelled.word _).seq
        (((on body (by simp)).kind hb).seq (Spelled.word _)))))))).congr ?_ rfl
    simp [hk]
  · obtain ⟨name, parameters, body, rfl, hn, hp, hb⟩ := Tree.exists_triple h
    refine ((Spelled.word _).seq (((on name (by simp)).kind hn).seq ((Spelled.word _).seq
      (((on parameters (by simp)).kind hp).present.seq ((Spelled.word _).seq
        ((Spelled.word _).seq (((on body (by simp)).kind hb).seq
          (Spelled.word _)))))))).congr ?_ rfl
    simp [hk]

theorem Spelled.main (hk : root.kind = .main) :
    Spelled (.construct .main) (Tree.node root children).words [.node root children] := by
  have admits := hl.admits
  rw [hk] at admits
  rw [Tree.words_node]
  obtain ⟨body, rfl, hb⟩ := List.map_eq_singleton_iff.mp (of_decide_eq_true admits)
  apply Spelled.node hl (by rw [hk]; rfl)
  refine ((Spelled.word _).seq ((Spelled.word _).seq ((Spelled.word _).seq ((Spelled.word _).seq
    (((on body (by simp)).kind hb).seq (Spelled.word _)))))).congr ?_ rfl
  simp [hk]

theorem Spelled.invocation (hk : root.kind = .invocation) :
    Spelled (.construct .invocation) (Tree.node root children).words [.node root children] := by
  rw [Tree.words_node]
  obtain ⟨callee, rest, rfl, hc, hr⟩ := hl.invocation hk
  apply Spelled.node hl (by rw [hk]; rfl)
  have name := (on callee (by simp)).kind hc
  rcases hr with rfl | ⟨arguments, rfl, ha⟩
  · refine ((Spelled.word _).seq (name.seq ((Spelled.word _).seq
      (Spelled.absent.seq (Spelled.word _))))).congr ?_ rfl
    simp [hk]
  · refine ((Spelled.word _).seq (name.seq ((Spelled.word _).seq
      (((on arguments (by simp)).kind ha).present.seq (Spelled.word _))))).congr ?_ rfl
    simp [hk]

theorem Spelled.parameters (hk : root.kind = .functionParameters) :
    Spelled (.construct .parameters) (Tree.node root children).words [.node root children] := by
  have admits := hl.admits
  rw [hk] at admits
  rw [Tree.words_node]
  have identifiers := hl.parameters hk
  cases children with
  | nil => exact absurd admits (by decide)
  | cons c cs =>
    apply Spelled.node hl (by rw [hk]; rfl)
    have first := (on c (by simp)).kind (identifiers c (by simp))
    have rest : ∀ u ∈ cs, Spelled (.kind .identifier) u.words [u] := fun u hu =>
      (on u (by simp [hu])).kind (identifiers u (by simp [hu]))
    refine (Spelled.listed first rest).congr ?_ rfl
    simp [hk, List.flatMap_map]

theorem Spelled.arguments (hk : root.kind = .invocationArguments) :
    Spelled (.construct .arguments) (Tree.node root children).words [.node root children] := by
  have admits := hl.admits
  rw [hk] at admits
  rw [Tree.words_node]
  have values := hl.arguments hk
  cases children with
  | nil => exact absurd admits (by decide)
  | cons c cs =>
    apply Spelled.node hl (by rw [hk]; rfl)
    have first := (on c (by simp)).value (values c (by simp))
    have rest : ∀ u ∈ cs, Spelled (.construct .value) u.words [u] := fun u hu =>
      (on u (by simp [hu])).value (values u (by simp [hu]))
    refine (Spelled.listed first rest).congr ?_ rfl
    simp [hk, List.flatMap_map]

theorem Spelled.instruction (hk : root.kind = .instruction) :
    Spelled (.construct .instruction) (Tree.node root children).words [.node root children] := by
  have admits := hl.admits
  rw [hk] at admits
  rw [Tree.words_node]
  rcases children with _ | ⟨c, _ | ⟨_, _⟩⟩
  case cons.nil =>
    have kinds : c.root.kind = .loop ∨ c.root.kind = .assignment ∨
        c.root.kind = .conditional ∨ c.root.kind = .return := by
      simpa using admits
    have words : root.words [c.words] = c.words := by
      simp [hk, Node.Kind.isLeaf]
    rw [List.map_singleton, words]
    apply Spelled.node hl (by rw [hk]; rfl)
    rcases kinds with h | h | h | h
    · exact ((on c (by simp)).kind h).one
    · exact ((on c (by simp)).kind h).one.other
    · exact ((on c (by simp)).kind h).one.other.other
    · exact ((on c (by simp)).kind h).other.other.other
  all_goals exact absurd admits (by simp [Node.Kind.isLeaf])

theorem Spelled.block (hk : root.kind = .instructionBlock) :
    Spelled (.construct .block) (Tree.node root children).words [.node root children] := by
  have admits := hl.admits
  rw [hk] at admits
  rw [Tree.words_node]
  cases children with
  | nil => exact absurd admits (by decide)
  | cons c cs =>
    have kinds : c.root.kind = .instruction ∧ ∀ u ∈ cs, u.root.kind = .instruction := by
      simpa using admits
    apply Spelled.node hl (by rw [hk]; rfl)
    have first := (on c (by simp)).kind kinds.1
    have rest := Spelled.many fun u hu => (on u (by simp [hu])).kind (kinds.2 u hu)
    refine (first.seq rest).congr ?_ rfl
    simp [hk, Node.Kind.isLeaf, List.flatMap_def]

theorem Spelled.loop (hk : root.kind = .loop) :
    Spelled (.construct .loop) (Tree.node root children).words [.node root children] := by
  have admits := hl.admits
  rw [hk] at admits
  rw [Tree.words_node]
  obtain ⟨body, condition, rfl, hb, hc⟩ := Tree.exists_pair (of_decide_eq_true admits)
  apply Spelled.node hl (by rw [hk]; rfl)
  refine ((Spelled.word _).seq ((Spelled.word _).seq (((on body (by simp)).kind hb).seq
    ((Spelled.word _).seq ((Spelled.word _).seq (((on condition (by simp)).kind hc).seq
      ((Spelled.word _).seq (Spelled.word _)))))))).congr ?_ rfl
  simp [hk]

theorem Spelled.conditional (hk : root.kind = .conditional) :
    Spelled (.construct .conditional) (Tree.node root children).words [.node root children] := by
  have admits := hl.admits
  rw [hk] at admits
  rw [Tree.words_node]
  simp only [Node.Kind.admits, Bool.or_eq_true, decide_eq_true_eq] at admits
  apply Spelled.node hl (by rw [hk]; rfl)
  rcases admits with h | h
  · obtain ⟨branch, rfl, hb⟩ := List.map_eq_singleton_iff.mp h
    refine (((on branch (by simp)).kind hb).seq Spelled.absent).congr ?_ rfl
    simp [hk, Node.Kind.isLeaf]
  · obtain ⟨branch, other, rfl, hb, ho⟩ := Tree.exists_pair h
    refine (((on branch (by simp)).kind hb).seq
      ((on other (by simp)).kind ho).present).congr ?_ rfl
    simp [hk, Node.Kind.isLeaf]

theorem Spelled.ifBranch (hk : root.kind = .ifBranch) :
    Spelled (.construct .ifBranch) (Tree.node root children).words [.node root children] := by
  have admits := hl.admits
  rw [hk] at admits
  rw [Tree.words_node]
  obtain ⟨condition, body, rfl, hc, hb⟩ := Tree.exists_pair (of_decide_eq_true admits)
  apply Spelled.node hl (by rw [hk]; rfl)
  refine ((Spelled.word _).seq ((Spelled.word _).seq (((on condition (by simp)).kind hc).seq
    ((Spelled.word _).seq ((Spelled.word _).seq (((on body (by simp)).kind hb).seq
      (Spelled.word _))))))).congr ?_ rfl
  simp [hk]

theorem Spelled.elseBranch (hk : root.kind = .elseBranch) :
    Spelled (.construct .elseBranch) (Tree.node root children).words [.node root children] := by
  have admits := hl.admits
  rw [hk] at admits
  rw [Tree.words_node]
  obtain ⟨body, rfl, hb⟩ := List.map_eq_singleton_iff.mp (of_decide_eq_true admits)
  apply Spelled.node hl (by rw [hk]; rfl)
  refine ((Spelled.word _).seq ((Spelled.word _).seq (((on body (by simp)).kind hb).seq
    (Spelled.word _)))).congr ?_ rfl
  simp [hk]

theorem Spelled.condition (hk : root.kind = .conditionalExpression) :
    Spelled (.construct .condition) (Tree.node root children).words [.node root children] := by
  have admits := hl.admits
  rw [hk] at admits
  rw [Tree.words_node]
  simp only [Node.Kind.admits, Bool.or_eq_true, decide_eq_true_eq] at admits
  apply Spelled.node hl (by rw [hk]; rfl)
  rcases admits with h | h
  · obtain ⟨first, rfl, hf⟩ := List.map_eq_singleton_iff.mp h
    refine (((on first (by simp)).kind hf).seq Spelled.absent).congr ?_ rfl
    simp [hk, Node.Kind.isLeaf]
  · obtain ⟨first, operator, second, rfl, hf, ho, hs⟩ := Tree.exists_triple h
    refine (((on first (by simp)).kind hf).seq (((on operator (by simp)).kind ho).seq
      ((on second (by simp)).kind hs)).present).congr ?_ rfl
    simp [hk, Node.Kind.isLeaf]

theorem Spelled.comparison (hk : root.kind = .comparison) :
    Spelled (.construct .comparison) (Tree.node root children).words [.node root children] := by
  rw [Tree.words_node]
  obtain ⟨left, sign, right, rfl, h, hs, h'⟩ := hl.comparison hk
  apply Spelled.node hl (by rw [hk]; rfl)
  refine (((on left (by simp)).value h).seq (((on sign (by simp)).kind hs).seq
    ((on right (by simp)).value h'))).congr ?_ rfl
  simp [hk, Node.Kind.isLeaf]

theorem Spelled.return (hk : root.kind = .return) :
    Spelled (.construct .return) (Tree.node root children).words [.node root children] := by
  rw [Tree.words_node]
  apply Spelled.node hl (by rw [hk]; rfl)
  obtain rfl | ⟨value, rfl, hv⟩ := hl.return hk
  · refine ((Spelled.word _).seq (Spelled.absent.seq (Spelled.word _))).congr ?_ rfl
    simp [hk]
  · refine ((Spelled.word _).seq (((on value (by simp)).expression hv).present.seq
      (Spelled.word _))).congr ?_ rfl
    simp [hk]

theorem Spelled.math (hk : root.kind = .mathExpression) :
    Spelled (.construct .math) (Tree.node root children).words [.node root children] := by
  have admits := hl.admits
  rw [hk] at admits
  rw [Tree.words_node]
  cases children with
  | nil => exact absurd admits (by decide)
  | cons c cs =>
    simp only [List.map_cons, Node.Kind.admits, Bool.and_eq_true] at admits
    apply Spelled.node hl (by rw [hk]; rfl)
    have first := (on c (by simp)).value admits.1
    have rest := Spelled.inTurn admits.2 fun u hu => on u (by simp [hu])
    refine ((Spelled.word _).seq (first.seq (rest.seq (Spelled.word _)))).congr ?_ ?_
    · simp [hk, List.flatMap_def]
    · simp

end

theorem Tree.isSpelled (t : Tree) (hl : t.LaidOut) (hw : t.WellSpelled) : t.IsSpelled := by
  induction t using Tree.ofChildren with
  | step root children ih =>
    have on : ∀ c ∈ children, c.IsSpelled := fun c hc => ih c hc (hl.child c hc) (hw.child c hc)
    show Spelled root.kind.phrase (Tree.words _) _
    cases hk : root.kind
    case program => exact Spelled.program hl on hk
    case assignment => exact Spelled.assignment hl on hk
    case function => exact Spelled.function hl on hk
    case main => exact Spelled.main hl on hk
    case invocation => exact Spelled.invocation hl on hk
    case functionParameters => exact Spelled.parameters hl on hk
    case invocationArguments => exact Spelled.arguments hl on hk
    case instruction => exact Spelled.instruction hl on hk
    case instructionBlock => exact Spelled.block hl on hk
    case loop => exact Spelled.loop hl on hk
    case conditional => exact Spelled.conditional hl on hk
    case ifBranch => exact Spelled.ifBranch hl on hk
    case elseBranch => exact Spelled.elseBranch hl on hk
    case conditionalExpression => exact Spelled.condition hl on hk
    case comparison => exact Spelled.comparison hl on hk
    case «return» => exact Spelled.return hl on hk
    case mathExpression => exact Spelled.math hl on hk
    all_goals
      obtain rfl : children = [] :=
        Tree.children_of_isLeaf hl (by show root.kind.isLeaf; rw [hk]; rfl)
      rw [words_node]
      refine (Spelled.leaf (by rw [hk]; rfl) (hl.isSome_content (by rw [hk]; rfl))
        (hw.root _ (by rw [hk]; rfl))).congr ?_ rfl
      simp [hk, Node.Kind.isLeaf]

/-! ## Compiling what was printed -/

/-- The tree of a derivation of a program, but for its numbers. -/
theorem Derivation.trees_program (d : Derivation (.construct .program)) :
    d.trees.map Tree.bare = [d.tree.bare] := by
  cases d with
  | construct d =>
    rw [Derivation.tree, Tree.bare_numbered]
    rfl

/-- A program tree whose leaves are spelled well is printed, scanned and read into the same kinds,
contents and children. -/
theorem Tree.ofTokens_scan_source (t : Tree) (hl : t.LaidOut) (hk : t.root.kind = .program)
    (hw : t.WellSpelled) :
    ∃ tokens p, scan t.source = .ok tokens ∧ Program.ofTokens tokens = .ok p ∧
      p.tree.bare = t.bare := by
  obtain ⟨tokens, hs, hts, alone⟩ := scan_lines t.words (t.alone_words hl hw)
  have spelled : Spelled (.construct .program) t.words [t] := (t.isSpelled hl hw).kind hk
  obtain ⟨d, rfl, hd⟩ := spelled tokens hts alone
  have produced : ∀ u ∈ d.yield, u.Producible := fun u hu => ⟨_, (alone u hu).scan, rfl⟩
  obtain ⟨p, hp⟩ := d.ofTokens_yield produced
  refine ⟨d.yield, p, hs, hp, ?_⟩
  obtain ⟨e, he, ht⟩ := Program.derivation_of_ofTokens hp
  obtain rfl := Derivation.eq_of_yield produced he.symm
  rw [d.trees_program, ht] at hd
  exact List.singleton_inj.mp hd

/-- A program that gives back a float is printed and read again. -/
theorem Tree.ofTokens_scan_source_float :
    let leaf : Tree := .node ⟨0, .float, some "-12;5", .start, none⟩ []
    let giveBack : Tree := .inner .instruction .start [.inner .return .start [leaf]]
    let t : Tree := .inner .program .start
      [.inner .main .start [.inner .instructionBlock .start [giveBack]]]
    t.LaidOut ∧ t.root.kind = .program ∧ t.WellSpelled ∧
      ∃ tokens p, scan t.source = .ok tokens ∧ Program.ofTokens tokens = .ok p ∧
        p.tree.bare = t.bare := by
  intro leaf giveBack t
  have hl : t.LaidOut := by decide
  have hw : t.WellSpelled := by decide
  exact ⟨hl, rfl, hw, t.ofTokens_scan_source hl rfl hw⟩

end Mamuth
