-- The stages with everything in them that could go wrong: cuts of the source by byte offsets,
-- tokens by their index, and nodes without the children that their rule reads. None of it goes
-- wrong, so a compilation always has an outcome.
import Mamuth.Compilation
import Mamuth.Proofs.ByteOffsets
import Mamuth.Proofs.Cursor
import Mamuth.Proofs.Failures

namespace Mamuth

/-! ## Trees that can be checked -/

namespace Tree

/-- Each node has the children that its rule reads. -/
def Shaped (t : Tree) : Prop :=
  ∀ u ∈ t.subtrees, ∀ shape : Shape, u.root.kind = shape.kind → shape.Fits u.children.length

/-- The check of a tree, without an outcome where a rule does not find its children. -/
def verify? (t : Tree) : Option (Except (Typing.Stopped Tree) (Tree × Typing.State)) :=
  match t.verify with
  | .ok checked => some (.ok checked)
  | .error e =>
    match e.fault with
    | .malformed _ => none
    | _ => some (.error e)

theorem Shaped.ne_malformed {t : Tree} (h : t.Shaped) {e : Typing.Stopped Tree}
    (he : t.verify = .error e) (shape : Shape) : e.fault ≠ .malformed shape := by
  intro hf
  obtain ⟨u, hu, shows⟩ := shows_of_verify he
  rw [hf] at shows
  cases shows with
  | malformed hk hn => exact hn (h _ hu shape hk)

theorem Shaped.verify?_eq {t : Tree} (h : t.Shaped) : t.verify? = some t.verify := by
  rw [verify?]
  cases he : t.verify with
  | ok checked => rfl
  | error e =>
    cases hf : e.fault with
    | malformed shape => exact absurd hf (h.ne_malformed he shape)
    | _ => simp [hf]

/-- The table of what may stand below what asks for no less than the rules. -/
theorem LaidOut.shaped {t : Tree} (h : t.LaidOut) : t.Shaped := by
  rintro ⟨root, children⟩ hu shape hk
  have here : (node root children).LaidOut := h.subtree hu
  cases shape with
  | assignment =>
    obtain ⟨_, _, rfl, -⟩ := here.assignment hk
    exact rfl
  | comparison =>
    obtain ⟨_, _, _, rfl, -⟩ := here.comparison hk
    exact rfl
  | invocation =>
    obtain ⟨_, _, rfl, -⟩ := here.invocation hk
    exact Nat.le_add_left 1 _

end Tree

theorem Program.verify?_tree (p : Program) : p.tree.verify? = some p.tree.verify :=
  p.laidOut_tree.shaped.verify?_eq

/-! ## Compilations -/

namespace Compiler

theorem run_bind (c : Compiler α) (f : α → Compiler β) (events : List Log.Event) :
    (c >>= f).run events = match c.run events with
      | (.ok x, events) => (f x).run events
      | (.error e, events) => (.error e, events) := by
  show ExceptT.bindCont f (c.run events).1 (c.run events).2 = _
  rcases c.run events with ⟨_ | _, _⟩ <;> rfl

theorem run_scan (source : String) (events : List Log.Event) :
    (scan source).run events = match Mamuth.scan source with
      | .ok tokens => (.ok tokens, events ++ [.scanned tokens.length (lineCount source)])
      | .error pieces => (.error (.lexical pieces), events ++ pieces.map .unrecognized) := by
  rw [scan]
  cases Mamuth.scan source <;> rfl

theorem run_parse (tokens : List Token) (events : List Log.Event) :
    (parse tokens).run events = match Program.ofTokens tokens with
      | .ok program => (.ok program.tree, events ++ [.parsed program.size])
      | .error e => (.error (.syntactic e), events) := by
  rw [parse]
  cases Program.ofTokens tokens <;> rfl

theorem run_verify (tree : Tree) (events : List Log.Event) :
    (verify tree).run events = match tree.verify with
      | .ok (tree, s) =>
        (.ok (tree, s.table), events ++ (Compiler.events s ++ [.verified s.types.size]))
      | .error e => (.error (.semantic e.fault), events ++ Compiler.events e.state) := by
  rw [verify]
  cases tree.verify <;> rfl

end Compiler

/-- A compilation comes to its first stage that fails, and has the events of all stages that it
comes to. -/
theorem compile_eq (source : String) : compile source =
    match scan source with
    | .error pieces => (.error (.lexical pieces), pieces.map .unrecognized)
    | .ok tokens =>
      match Program.ofTokens tokens with
      | .error e => (.error (.syntactic e), [.scanned tokens.length (lineCount source)])
      | .ok program =>
        match program.tree.verify with
        | .error e =>
          (.error (.semantic e.fault),
            .scanned tokens.length (lineCount source) :: .parsed program.size ::
              Compiler.events e.state)
        | .ok (tree, s) =>
          (.ok { tokens, tree, table := s.table },
            .scanned tokens.length (lineCount source) :: .parsed program.size ::
              (Compiler.events s ++ [.verified s.types.size])) := by
  simp only [compile, Compiler.run_bind, Compiler.run_scan]
  cases scan source with
  | error pieces => rfl
  | ok tokens =>
    simp only [Compiler.run_parse]
    cases Program.ofTokens tokens with
    | error e => rfl
    | ok program =>
      simp only [Compiler.run_verify]
      cases program.tree.verify <;> rfl

/-- The outcome of a compilation is that of the first stage that fails. -/
theorem compile_fst (source : String) : (compile source).1 =
    match scan source with
    | .error pieces => .error (.lexical pieces)
    | .ok tokens =>
      match Program.ofTokens tokens with
      | .error e => .error (.syntactic e)
      | .ok program =>
        match program.tree.verify with
        | .error e => .error (.semantic e.fault)
        | .ok (tree, s) => .ok { tokens, tree, table := s.table } := by
  rw [compile_eq]
  cases scan source with
  | error pieces => rfl
  | ok tokens =>
    dsimp only
    cases Program.ofTokens tokens with
    | error e => rfl
    | ok program =>
      dsimp only
      cases program.tree.verify <;> rfl

/-- The stage in which a compilation fails, after those before it have succeeded. -/
theorem compile_error {source : String} {e : CompileError} (h : (compile source).1 = .error e) :
    (∃ pieces, scan source = .error pieces ∧ e = .lexical pieces) ∨
    (∃ tokens error, scan source = .ok tokens ∧ Program.ofTokens tokens = .error error ∧
      e = .syntactic error) ∨
    ∃ tokens p stopped, scan source = .ok tokens ∧ Program.ofTokens tokens = .ok p ∧
      p.tree.verify = .error stopped ∧ e = .semantic stopped.fault := by
  rw [compile_fst] at h
  cases hs : scan source with
  | error pieces =>
    rw [hs] at h
    exact .inl ⟨pieces, rfl, (Except.error.inj h).symm⟩
  | ok tokens =>
    rw [hs] at h
    dsimp only at h
    cases hp : Program.ofTokens tokens with
    | error error =>
      rw [hp] at h
      exact .inr (.inl ⟨tokens, error, rfl, hp, (Except.error.inj h).symm⟩)
    | ok p =>
      rw [hp] at h
      dsimp only at h
      cases hv : p.tree.verify with
      | error stopped =>
        rw [hv] at h
        exact .inr (.inr ⟨tokens, p, stopped, rfl, hp, hv, (Except.error.inj h).symm⟩)
      | ok checked =>
        rw [hv] at h
        cases h

/-- The stages in turn, without an outcome where one of them has none. -/
def compile? (source : String) : Option (Except CompileError Compilation) := do
  match ← Scanner.scan? source with
  | .error pieces => return .error (.lexical pieces)
  | .ok tokens =>
    match ← Cursor.parse? tokens with
    | .error e => return .error (.syntactic e)
    | .ok program =>
      match ← program.tree.verify? with
      | .error e => return .error (.semantic e.fault)
      | .ok (tree, s) => return .ok { tokens, tree, table := s.table }

theorem compile?_eq_some (source : String) : compile? source = some (compile source).1 := by
  simp only [compile?, Scanner.scan?_eq, Cursor.parse?_eq, Program.verify?_tree, compile_fst,
    Option.bind_eq_bind, Option.bind_some]
  cases scan source with
  | error pieces => rfl
  | ok tokens =>
    dsimp only
    cases Program.ofTokens tokens with
    | error e => rfl
    | ok program =>
      dsimp only
      cases program.tree.verify <;> rfl

/-- No source text, no list of tokens and no tree with the children that the rules read leaves a
stage without an outcome. Scanning cuts the text only between characters, parsing takes no token
beyond the last, and checking always finds the children; so a compilation has the outcome of its
stages. -/
theorem compile?_eq_compile :
    (∀ source, compile? source = some (compile source).1) ∧
    (∀ source, Scanner.scan? source = some (scan source)) ∧
    (∀ tokens, Cursor.parse? tokens = some (Program.ofTokens tokens)) ∧
    (∀ p : Program, p.tree.verify? = some p.tree.verify) ∧
    ∀ t : Tree, t.Shaped → t.verify? = some t.verify :=
  ⟨compile?_eq_some, Scanner.scan?_eq, Cursor.parse?_eq, Program.verify?_tree,
    fun _ => Tree.Shaped.verify?_eq⟩

/-- An entry point that is assigned to a loop is no program, but there are two children. -/
theorem compile?_eq_compile_odd :
    let t : Tree := .inner .assignment .start [.inner .loop .start [], .inner .main .start []]
    t.Shaped ∧ t.verify? = some t.verify := by
  intro t
  have shaped : t.Shaped := by
    intro u hu shape hk
    simp only [t, Tree.inner, Tree.subtrees, Tree.subtreesAll, List.nil_append, List.append_nil,
      List.cons_append, List.mem_cons, List.not_mem_nil, or_false] at hu
    rcases hu with rfl | rfl | rfl <;> cases shape <;> first | exact rfl | cases hk
  exact ⟨shaped, compile?_eq_compile.2.2.2.2 t shaped⟩

end Mamuth
