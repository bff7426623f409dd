-- The layout of a source text has no meaning. Texts with the same words, each of the same kind,
-- compile to the same tree and the same table, or fail with the same error at the same word,
-- whatever stands between the words and on which lines they are.
import Mamuth.Proofs.Diagnostics
import Mamuth.Proofs.MovedTokens
import Mamuth.Proofs.Relabelling

namespace Mamuth

/-- What a token is, without its place. -/
def Token.word (t : Token) : Token.Kind × String := (t.kind, t.lexeme)

/-- The tree without the places of its nodes. -/
def Tree.unplaced : Tree → Tree := Tree.map fun n => { n with position := .start }

/-- The fault at another place. -/
def Fault.moved (f : Position → Position) : Fault → Fault
  | undeclared name place => undeclared name (f place)
  | notNumeric operand found place => notNumeric operand found (f place)
  | notCallable name place => notCallable name (f place)
  | functionArgument name place => functionArgument name (f place)
  | incomparable comparator left right place => incomparable comparator left right (f place)
  | malformed shape => malformed shape

/-- The same error at the same token of two lists. -/
inductive CompileError.Alongside (ts us : List Token) : CompileError → CompileError → Prop
  | syntactic {e e' : SyntaxError} (h : e.Alongside ts us e') :
    Alongside ts us (.syntactic e) (.syntactic e')
  | semantic {i : Nat} {t u : Token} (fault : Fault) (ht : ts[i]? = some t)
    (hu : us[i]? = some u) :
    Alongside ts us (.semantic (fault.moved fun _ => t.position))
      (.semantic (fault.moved fun _ => u.position))

/-- The same outcome for two texts with these tokens: trees that differ in places only and the
same table, or the same error at the same token. -/
inductive Compilation.Alongside (ts us : List Token) :
    Except CompileError Compilation → Except CompileError Compilation → Prop
  | ok {c d : Compilation} (trees : c.tree.unplaced = d.tree.unplaced)
    (tables : c.table = d.table) : Alongside ts us (.ok c) (.ok d)
  | error {e e' : CompileError} (h : e.Alongside ts us e') :
    Alongside ts us (.error e) (.error e')

/-! ## Words elsewhere -/

/-- Tokens that stand apart can be moved to any places. -/
theorem Token.exists_moved {ts us : List Token} (same : ts.map Token.word = us.map Token.word)
    (apart : (ts.map Token.position).Nodup) : ∃ f, us = ts.map (Token.moved f) := by
  induction ts generalizing us with
  | nil => exact ⟨id, by simpa using same.symm⟩
  | cons t ts ih =>
    obtain ⟨u, us, rfl, word, words⟩ := List.map_eq_cons_iff.mp same.symm
    rw [List.map_cons, List.nodup_cons] at apart
    obtain ⟨f, rfl⟩ := ih words.symm apart.2
    refine ⟨fun p => if p = t.position then u.position else f p, ?_⟩
    rw [List.map_cons]
    congr 1
    · obtain ⟨kind, lexeme, position⟩ := u
      cases word
      rw [moved, if_pos rfl]
    · refine List.map_congr_left fun v hv => ?_
      have elsewhere : v.position ≠ t.position := fun he =>
        apart.1 (he ▸ List.mem_map_of_mem hv)
      rw [moved, moved, if_neg elsewhere]

/-- Other places and nothing else. -/
def Relabelling.moving (f : Position → Position) : Relabelling where
  name := fun name => name
  id := fun id => id
  position := f
  name_injective := fun _ _ h => h
  id_injective := fun _ _ h => h
  standard := fun _ _ => rfl

variable {f : Position → Position}

theorem Node.relabelled_moving (n : Node) : n.relabelled (.moving f) = n.moved f := by
  have content : n.content.map (Relabelling.moving f).name = n.content := Option.map_id'
  rw [Node.relabelled, content, ite_self]
  rfl

theorem Tree.relabelled_moving (t : Tree) : t.relabelled (.moving f) = t.moved f := by
  rw [Tree.relabelled, funext Node.relabelled_moving, Tree.moved]

theorem SymbolTable.relabelled_moving (t : SymbolTable) : t.relabelled (.moving f) = t := by
  have symbol : Symbol.relabelled (.moving f) = id := by
    funext y
    obtain ⟨name, depth, category, declaration⟩ := y
    cases declaration <;> rfl
  rw [SymbolTable.relabelled, symbol, List.map_id]

theorem Fault.eq_moved {nodes : List Node} {e e' : Fault}
    (h : e.Relabelled (.moving f) nodes e') : e' = e.moved f := by
  cases h with
  | notNumeric operand _ found =>
    rw [Node.relabelled_moving]
    rfl
  | _ => rfl

/-! ## Places of faults -/

theorem Fault.moved_id (fault : Fault) : fault.moved id = fault := by
  cases fault <;> rfl

/-- A fault that points at a token stands where this token does. -/
theorem Fault.PointsAt.exists_token {ts : List Token} {fault : Fault} (h : fault.PointsAt ts) :
    ∃ t ∈ ts, ∀ f, fault.moved f = fault.moved fun _ => f t.position := by
  cases fault with
  | incomparable comparator left right place =>
    obtain ⟨before, operand, sign, other, after, rfl, -, -, -, rfl, -⟩ := h
    exact ⟨operand, by simp, fun f => rfl⟩
  | malformed shape => exact h.elim
  | _ =>
    obtain ⟨t, ht, -, rfl, -⟩ := h
    exact ⟨t, ht, fun f => rfl⟩

theorem Fault.PointsAt.alongside {ts : List Token} {fault : Fault} (h : fault.PointsAt ts) :
    CompileError.Alongside ts (ts.map (Token.moved f)) (.semantic fault)
      (.semantic (fault.moved f)) := by
  obtain ⟨t, ht, moves⟩ := h.exists_token
  obtain ⟨i, hi⟩ := List.mem_iff_getElem?.mp ht
  have here : fault = fault.moved fun _ => t.position := fault.moved_id.symm.trans (moves id)
  have hu : (ts.map (Token.moved f))[i]? = some (t.moved f) := Token.getElem?_moved hi
  have alongside := CompileError.Alongside.semantic fault hi hu
  rwa [← here, Token.moved, ← moves f] at alongside

/-! ## Compilations -/

theorem Tree.unplaced_moved (t : Tree) : (t.moved f).unplaced = t.unplaced := by
  induction t using ofChildren with
  | step root children ih =>
    rw [moved_node, unplaced, map_node, map_node, List.map_map]
    exact congrArg (node _) (List.map_congr_left ih)

/-- Places do not matter to a check. -/
theorem Program.verify_moved {p p' : Program} (tree : p'.tree = p.tree.moved f) :
    match p.tree.verify, p'.tree.verify with
    | .ok (t, s), .ok (t', s') => t.unplaced = t'.unplaced ∧ s.table = s'.table
    | .error e, .error e' => e'.fault = e.fault.moved f
    | _, _ => False := by
  have checks := Tree.verify_relabelled (.moving f) p.laidOut_tree
  rw [Tree.relabelled_moving, ← tree] at checks
  rcases hv : p.tree.verify with e | ⟨t, s⟩ <;> rcases hv' : p'.tree.verify with e' | ⟨t', s'⟩ <;>
    rw [hv, hv'] at checks
  · exact Fault.eq_moved checks.1
  · exact checks
  · exact checks
  · obtain ⟨rfl, known⟩ := checks
    have table := known.table
    rw [SymbolTable.relabelled_moving] at table
    exact ⟨by rw [Tree.relabelled_moving, Tree.unplaced_moved], table.symm⟩

/-- Texts with the same words compile alike, whatever their layout. -/
theorem compile_of_same_words {a b : String} {ts us : List Token} (ha : scan a = .ok ts)
    (hb : scan b = .ok us) (same : ts.map Token.word = us.map Token.word) :
    Compilation.Alongside ts us (compile a).1 (compile b).1 := by
  have listed := Token.list_of_scan ha
  obtain ⟨f, rfl⟩ := Token.exists_moved same (listed ▸ Token.nodup_positions a)
  have along := Program.alongside_moved f ts
  rw [compile_fst, compile_fst, ha, hb]
  dsimp only
  rcases hp : Program.ofTokens ts with e | p <;>
    rcases hp' : Program.ofTokens (ts.map (Token.moved f)) with e' | p' <;>
    rw [hp, hp'] at along
  · exact .error (.syntactic along)
  · exact along.elim
  · exact along.elim
  · have once : ∀ t ∈ ts, ∀ u ∈ ts, u.position = t.position → u = t := by
      rw [← listed]
      exact fun t ht u hu => Token.eq_of_position hu ht
    have checks := Program.verify_moved (Program.tree_moved (Token.producible_of_scan ha) hp hp')
    dsimp only
    rcases hv : p.tree.verify with stopped | ⟨t, s⟩ <;>
      rcases hv' : p'.tree.verify with stopped' | ⟨t', s'⟩ <;> rw [hv, hv'] at checks
    · dsimp only
      rw [checks]
      exact .error (Program.pointsAt_of_verify once hp hv).alongside
    · exact checks.elim
    · exact checks.elim
    · exact .ok checks.1 checks.2

/-- A program on one line, and the same program with a comment above it, on lines of its own. -/
theorem compile_of_same_words_lines :
    let ts : List Token := [⟨.keyword, "maracuya", ⟨1, 1⟩⟩, ⟨.punctuation, "(", ⟨1, 9⟩⟩,
      ⟨.punctuation, ")", ⟨1, 10⟩⟩, ⟨.punctuation, "xD", ⟨1, 12⟩⟩, ⟨.keyword, "messirve", ⟨1, 15⟩⟩,
      ⟨.integer, "1", ⟨1, 24⟩⟩, ⟨.punctuation, ".", ⟨1, 25⟩⟩, ⟨.punctuation, "v:", ⟨1, 27⟩⟩]
    let us : List Token := [⟨.keyword, "maracuya", ⟨2, 1⟩⟩, ⟨.punctuation, "(", ⟨2, 10⟩⟩,
      ⟨.punctuation, ")", ⟨2, 12⟩⟩, ⟨.punctuation, "xD", ⟨3, 1⟩⟩, ⟨.keyword, "messirve", ⟨4, 2⟩⟩,
      ⟨.integer, "1", ⟨4, 11⟩⟩, ⟨.punctuation, ".", ⟨4, 13⟩⟩, ⟨.punctuation, "v:", ⟨5, 1⟩⟩]
    scan "maracuya() xD messirve 1. v:" = .ok ts ∧
      scan "muchoTexto: uno\nmaracuya ( )\nxD\n\tmessirve 1 .\nv:" = .ok us ∧
      ts.map Token.word = us.map Token.word ∧
      Compilation.Alongside ts us (compile "maracuya() xD messirve 1. v:").1
        (compile "muchoTexto: uno\nmaracuya ( )\nxD\n\tmessirve 1 .\nv:").1 := by
  intro ts us
  have ha : scan "maracuya() xD messirve 1. v:" = .ok ts := rfl
  have hb : scan "muchoTexto: uno\nmaracuya ( )\nxD\n\tmessirve 1 .\nv:" = .ok us := rfl
  have same : ts.map Token.word = us.map Token.word := rfl
  exact ⟨ha, hb, same, compile_of_same_words ha hb same⟩

end Mamuth
