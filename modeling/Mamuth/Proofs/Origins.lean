-- Where the nodes of a program come from. A leaf has the text and the place of a token, and a
-- construct stands where the first token that it derives does. So the words that a node of a
-- program holds are words of its tokens, at their places.
import Mamuth.Proofs.Layout
import Mamuth.Proofs.Productions

namespace Mamuth

/-! ## Trees without numbers -/

namespace Tree

/-- The tree without its numbers. -/
def unnumbered : Tree → Tree := map fun n => { n with id := 0 }

@[simp] theorem unnumbered_node (root : Node) (children : List Tree) :
    (node root children).unnumbered =
      node { root with id := 0 } (children.map unnumbered) := map_node _ _ _

@[simp] theorem root_unnumbered (t : Tree) : t.unnumbered.root = { t.root with id := 0 } :=
  root_map _ _

theorem unnumbered_numbered (t : Tree) : t.numbered.unnumbered = t.unnumbered :=
  map_numberFrom (fun _ _ => rfl) 0 t

theorem unnumbered_mem_subtrees {t u : Tree} (h : u ∈ t.subtrees) :
    u.unnumbered ∈ t.unnumbered.subtrees := by
  induction t using ofChildren with
  | step root children ih =>
    rw [unnumbered_node, subtrees]
    rcases List.mem_cons.mp h with rfl | h
    · rw [unnumbered_node]
      exact List.mem_cons_self
    · obtain ⟨c, hc, h⟩ := mem_subtreesAll.mp h
      exact .tail _ (mem_subtreesAll.mpr ⟨_, List.mem_map_of_mem hc, ih c hc h⟩)

theorem subtreesAll_append (ts us : List Tree) :
    subtreesAll (ts ++ us) = subtreesAll ts ++ subtreesAll us := by
  induction ts with
  | nil => rfl
  | cons t ts ih => rw [List.cons_append, subtreesAll, subtreesAll, ih, List.append_assoc]

end Tree

open Mamuth.Tree

/-! ## Nodes and tokens -/

/-- The tree comes from the tokens: some of them in a row are the token of its leaf, or they
derive its construct. -/
inductive Tree.OfTokens : List Token → Tree → Prop
  | leaf {x : Terminal} {kind : Node.Kind} (hx : x.node? = some kind) (t : Token) :
    OfTokens [t] (.node ⟨0, kind, some t.lexeme, t.position, none⟩ [])
  | construct {n : Nonterminal} {kind : Node.Kind} (hn : n.node? = some kind)
    (d : Derivation n.production) :
    OfTokens d.yield (.node ⟨0, kind, n.content d.trees, d.start?.getD .start, none⟩ d.trees)
  | within {tokens : List Token} {u : Tree} (before after : List Token) (h : OfTokens tokens u) :
    OfTokens (before ++ tokens ++ after) u

namespace Derivation

variable {p : Phrase}

/-- Every node of a derivation comes from the tokens that are spelled. -/
theorem ofTokens_trees (d : Derivation p) : ∀ u ∈ subtreesAll d.trees, u.OfTokens d.yield := by
  have both {ts us : List Token} {xs ys : List Tree}
      (h : ∀ u ∈ subtreesAll xs, u.OfTokens ts) (h' : ∀ u ∈ subtreesAll ys, u.OfTokens us) :
      ∀ u ∈ subtreesAll (xs ++ ys), u.OfTokens (ts ++ us) := by
    intro u hu
    rw [subtreesAll_append, List.mem_append] at hu
    rcases hu with hu | hu
    · exact (h u hu).within [] us
    · simpa using (h' u hu).within ts []
  induction d with
  | @terminal x token h =>
    intro u hu
    rw [trees] at hu
    cases hx : x.node? with
    | none =>
      rw [hx] at hu
      cases hu
    | some kind =>
      rw [hx] at hu
      obtain rfl : u = _ := by simpa [subtreesAll, subtrees] using hu
      exact .leaf hx token
  | @construct n d ih =>
    rw [trees]
    cases hn : n.node? with
    | none => exact ih
    | some kind =>
      intro u hu
      rw [subtreesAll, subtreesAll, List.append_nil, subtrees, List.mem_cons] at hu
      rcases hu with rfl | hu
      · exact .construct hn d
      · exact ih u hu
  | seq d e ih ih' => exact both ih ih'
  | one d ih => exact ih
  | other d ih => exact ih
  | absent | done =>
    intro u hu
    cases hu
  | present d ih => exact ih
  | more d e ih ih' => exact both ih ih'

theorem unnumbered_trees (d : Derivation p) : d.trees.map unnumbered = d.trees := by
  induction d with
  | @terminal x token h =>
    rw [trees]
    cases x.node? <;> rfl
  | @construct n d ih =>
    rw [trees]
    cases n.node? with
    | none => exact ih
    | some kind => simp [ih]
  | seq d e ih ih' => simp [trees, ih, ih']
  | one d ih => exact ih
  | other d ih => exact ih
  | absent => rfl
  | present d ih => exact ih
  | done => rfl
  | more d e ih ih' => simp [trees, ih, ih']

/-- The derivation of a program has its tree, but for the numbers. -/
theorem trees_eq_unnumbered {d : Derivation (.construct .program)} {p : Program}
    (h : d.tree = p.tree) : d.trees = [p.tree.unnumbered] := by
  rw [← d.unnumbered_trees, ← h]
  cases d with
  | construct d =>
    rw [Derivation.tree, unnumbered_numbered]
    rfl

end Derivation

/-- Every node of a program comes from its tokens. -/
theorem Program.ofTokens_subtrees {tokens : List Token} {p : Program}
    (h : ofTokens tokens = .ok p) : ∀ u ∈ p.tree.subtrees, u.unnumbered.OfTokens tokens := by
  obtain ⟨d, rfl, ht⟩ := derivation_of_ofTokens h
  intro u hu
  refine d.ofTokens_trees _ ?_
  simpa [Derivation.trees_eq_unnumbered ht, subtreesAll] using unnumbered_mem_subtrees hu

/-! ## What the nodes hold -/

/-- A value is one token and one leaf. -/
theorem Derivation.yield_value (d : Derivation (.construct .value)) :
    ∃ t x, d.yield = [t] ∧ d.trees = [x] ∧ t.kind.isValue := by
  have value {k : Token.Kind} {t : Token} (h : (Terminal.kind k).recognizes t)
      (hk : k.isValue) : t.kind.isValue := of_decide_eq_true h ▸ hk
  match d with
  | .construct (.one (.terminal t h)) => exact ⟨t, _, rfl, rfl, value h rfl⟩
  | .construct (.other (.construct (.one (.terminal t h)))) => exact ⟨t, _, rfl, rfl, value h rfl⟩
  | .construct (.other (.construct (.other (.one (.terminal t h))))) =>
    exact ⟨t, _, rfl, rfl, value h rfl⟩
  | .construct (.other (.construct (.other (.other (.one (.terminal t h)))))) =>
    exact ⟨t, _, rfl, rfl, value h rfl⟩
  | .construct (.other (.construct (.other (.other (.other (.terminal t h)))))) =>
    exact ⟨t, _, rfl, rfl, value h rfl⟩

namespace Tree.OfTokens

variable {tokens : List Token} {u : Tree}

/-- A leaf has the text and the place of one of the tokens. -/
theorem leaf_token (h : u.OfTokens tokens) (hk : u.root.kind.isLeaf) :
    ∃ t ∈ tokens, u.root.content = some t.lexeme ∧ u.root.position = t.position := by
  induction h with
  | leaf hx t => exact ⟨t, List.mem_singleton_self t, rfl, rfl⟩
  | @construct n kind hn d =>
    cases n <;> cases hn <;> cases hk
  | within before after h ih =>
    obtain ⟨t, ht, same⟩ := ih hk
    exact ⟨t, by simp [ht], same⟩

/-- Nothing that comes from tokens has a type yet. -/
theorem type_root (h : u.OfTokens tokens) : u.root.type = none := by
  induction h with
  | leaf | construct => rfl
  | within _ _ _ ih => exact ih

/-- A comparison is three tokens in a row, and stands at the first. -/
theorem comparison_tokens (h : u.OfTokens tokens) (hk : u.root.kind = .comparison) :
    ∃ before left sign right after, tokens = before ++ left :: sign :: right :: after ∧
      left.kind.isValue ∧ sign.kind = .comparator ∧ right.kind.isValue ∧
      u.root.position = left.position ∧
      ∃ x y z, u.children = [x, y, z] ∧ y.root.content = some sign.lexeme := by
  induction h with
  | @leaf x kind hx t =>
    unfold Terminal.node? at hx
    split at hx <;> cases hx <;> cases hk
  | @construct n kind hn d =>
    obtain rfl : n = .comparison := by cases n <;> cases hn <;> first | rfl | cases hk
    match d with
    | .seq v (.seq (.terminal sign hs) w) =>
      obtain ⟨left, x, hv, hx, hleft⟩ := v.yield_value
      obtain ⟨right, z, hw, hz, hright⟩ := w.yield_value
      have first : v.start? = some left.position := by rw [Derivation.start?, hv]; rfl
      refine ⟨[], left, sign, right, [], ?_, hleft, of_decide_eq_true hs, hright, ?_, x,
        .node ⟨0, .comparator, sign.lexeme, sign.position, none⟩ [], z, ?_, rfl⟩
      · rw [Derivation.yield, Derivation.yield, Derivation.yield, hv, hw]
        rfl
      · exact congrArg (·.getD .start) (Derivation.start?_seq first _)
      · rw [children, Derivation.trees_seq, Derivation.trees_seq, hx, hz,
          Derivation.trees_terminal rfl]
        rfl
  | within before after h ih =>
    obtain ⟨before', left, sign, right, after', rfl, same⟩ := ih hk
    exact ⟨before ++ before', left, sign, right, after' ++ after, by simp, same⟩

end Tree.OfTokens

/-! ## Nodes of programs -/

namespace Program

variable {tokens : List Token} {p : Program} (h : ofTokens tokens = .ok p) {u : Tree}
  (hu : u ∈ p.tree.subtrees)
include h hu

/-- The name and the place of a leaf are those of a token. -/
theorem leaf_token (hk : u.root.kind.isLeaf) :
    ∃ t ∈ tokens, t.lexeme = u.root.name ∧ t.position = u.root.position := by
  obtain ⟨t, ht, content, position⟩ :=
    (ofTokens_subtrees h u hu).leaf_token (by rwa [root_unnumbered])
  rw [root_unnumbered] at content position
  exact ⟨t, ht, by rw [Node.name, content]; rfl, position.symm⟩

theorem comparison_tokens {left sign right : Tree} (hk : u.root.kind = .comparison)
    (hc : u.children = [left, sign, right]) :
    ∃ before s t v after, tokens = before ++ s :: t :: v :: after ∧
      s.kind.isValue ∧ t.kind = .comparator ∧ v.kind.isValue ∧
      s.position = u.root.position ∧ t.lexeme = sign.root.name := by
  obtain ⟨before, s, t, v, after, he, hs, ht, hv, position, x, y, z, children, content⟩ :=
    (ofTokens_subtrees h u hu).comparison_tokens (by rwa [root_unnumbered])
  rw [root_unnumbered] at position
  obtain ⟨root, rest⟩ := u
  obtain rfl : rest = [left, sign, right] := hc
  rw [unnumbered_node] at children
  obtain ⟨-, rfl, -⟩ : _ ∧ _ ∧ _ := by simpa [Tree.children] using children
  rw [root_unnumbered] at content
  exact ⟨before, s, t, v, after, he, hs, ht, hv, position.symm, by rw [Node.name, content]; rfl⟩

end Program

end Mamuth
