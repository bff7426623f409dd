-- The log of a compilation, event by event. It tells how far the compilation came, how much
-- each stage has made, and the blocks that the check opened and closed until it was done or
-- came to a fault.
import Mamuth.Proofs.BlockTrace
import Mamuth.Proofs.Safety

namespace Mamuth

open Compiler (events)

/-! ## What the stages log -/

theorem Tree.length_children_of_bare {t u : Tree} (h : t.bare = u.bare) :
    t.children.length = u.children.length := by
  obtain ⟨_, ts⟩ := t
  obtain ⟨_, us⟩ := u
  simp only [bare_node, node.injEq] at h
  have length := congrArg List.length h.2
  rwa [List.length_map, List.length_map] at length

theorem Program.length_children_tree (p : Program) : p.tree.children.length = p.size := by
  rw [Program.tree, Tree.length_children_of_bare (Tree.bare_numbered _)]
  simp [Tree.inner, Tree.children, Program.size, Nat.add_assoc]

/-- A check of a whole tree gives a type to each node, and to nothing else. -/
theorem Tree.size_types_of_verify {t t' : Tree} {s : Typing.State} (hl : t.LaidOut)
    (nodup : t.ids.Nodup) (h : t.verify = .ok (t', s)) : s.types.size = t.nodes.length := by
  have checked := Typing.check_ok t Typing.bounded_start h
  have same : ∀ i, i ∈ s.types.keys ↔ i ∈ t.ids := by
    intro i
    rw [Std.TreeMap.mem_keys, Std.TreeMap.mem_iff_isSome_getElem?]
    constructor
    · intro typed
      by_contra outside
      rw [checked.frame i outside] at typed
      cases typed
    · exact fun hi => Typing.decorates hl _ _ _ h i (.inl hi)
  have perm := (List.perm_ext_iff_of_nodup Std.TreeMap.nodup_keys nodup).mpr same
  rw [← Std.TreeMap.length_keys, perm.length_eq, ids, List.length_map]

/-- A check of a whole tree logs the blocks of the tree. -/
theorem Tree.events_of_verify {t t' : Tree} {s : Typing.State} (hl : t.LaidOut)
    (h : t.verify = .ok (t', s)) : events s = t.blockEvents 0 :=
  Typing.logsBlocks hl .start s t' Typing.bounded_start h

/-- A check of a whole tree that fails has logged the blocks up to a node that shows the fault. -/
theorem Tree.showsAfter_of_verify {t : Tree} {e : Typing.Stopped Tree} (hl : t.LaidOut)
    (h : t.verify = .error e) : t.ShowsAfter [] 0 e.fault (events e.state) := by
  have top : Typing.State.start.table.depth = blockDepth [] := rfl
  obtain ⟨logged, same, shows⟩ :=
    (Typing.fails_of_error h).logged hl Typing.bounded_start top 0
  rw [same]
  exact shows

/-! ## The log -/

namespace Log

/-- The level and the text of each event that a compilation logs. -/
inductive Event.Reads : Event → Level → String → Prop
  | unrecognized (piece : Token) : Reads (.unrecognized piece) .warn
      s!"unrecognized token {Text.quoted piece.lexeme} at {piece.position.inWords}"
  | scanned (tokens lines : Nat) : Reads (.scanned tokens lines) .debug
      s!"scanned {tokens} tokens over {lines} lines"
  | parsed (constructs : Nat) : Reads (.parsed constructs) .debug
      s!"parsed {constructs} top level constructs"
  | opened (depth : Nat) (kind : Node.Kind) : Reads (.opened depth kind) .trace
      s!"opened block at depth {depth} for {kind.name}"
  | closed (depth : Nat) : Reads (.closed depth) .trace
      s!"closed block, back to depth {depth}"
  | verified (nodes : Nat) : Reads (.verified nodes) .debug s!"verified {nodes} nodes"

end Log

/-- The events open the block of each node that has one, in the order of the tree, and what is
opened is closed again, the innermost first. -/
structure Tree.Blocks (t : Tree) (events : List Log.Event) : Prop where
  opened : events.filter Log.Event.opens = openings t.occurrences
  nested : Log.Nested 0 events

theorem Tree.blocks_blockEvents (t : Tree) : t.Blocks (t.blockEvents 0) where
  opened := t.opens_blockEvents [] 0
  nested := t.nested_blockEvents 0

/-- A compilation of the source with this outcome has these events. The outcome is that of the
first stage that fails, or of the last one, and each stage up to it logs what it made of what the
one before it gave. -/
inductive LoggedAs (source : String) : Except CompileError Compilation → List Log.Event → Prop
  | lexical {pieces} (failed : scan source = .error pieces) :
    LoggedAs source (.error (.lexical pieces)) (pieces.map .unrecognized)
  | syntactic {tokens e} (scanned : scan source = .ok tokens)
    (failed : Program.ofTokens tokens = .error e) :
    LoggedAs source (.error (.syntactic e))
      [.scanned tokens.length (source.toList.count '\n' + 1)]
  | semantic {tokens p e blocks} (scanned : scan source = .ok tokens)
    (parsed : Program.ofTokens tokens = .ok p) (failed : p.tree.verify = .error e)
    (reached : p.tree.ShowsAfter [] 0 e.fault blocks) :
    LoggedAs source (.error (.semantic e.fault))
      (.scanned tokens.length (source.toList.count '\n' + 1) ::
        .parsed p.tree.children.length :: blocks)
  | ok {tokens p tree s} (scanned : scan source = .ok tokens)
    (parsed : Program.ofTokens tokens = .ok p) (verified : p.tree.verify = .ok (tree, s))
    (typed : tree.untyped = p.tree.untyped) :
    LoggedAs source (.ok { tokens, tree, table := s.table })
      (.scanned tokens.length (source.toList.count '\n' + 1) ::
        .parsed p.tree.children.length ::
        (p.tree.blockEvents 0 ++ [.verified p.tree.nodes.length]))

theorem Log.Nested.reads {depth : Nat} {events : List Event} (h : Nested depth events) :
    ∀ e ∈ events, e.Reads e.level e.message := by
  induction h with
  | nil => simp
  | block _ _ inside beside =>
    intro e he
    rcases List.mem_cons.mp he with rfl | he
    · exact .opened _ _
    · rcases List.mem_append.mp he with he | he
      · exact inside e he
      · rcases List.mem_cons.mp he with rfl | he
        · exact .closed _
        · exact beside e he

theorem LoggedAs.reads {source : String} {outcome : Except CompileError Compilation}
    {log : List Log.Event} (h : LoggedAs source outcome log) :
    ∀ e ∈ log, e.Reads e.level e.message := by
  cases h with
  | lexical => exact List.forall_mem_map.mpr fun piece _ => .unrecognized piece
  | syntactic => exact List.forall_mem_singleton.mpr (.scanned _ _)
  | semantic _ _ _ reached =>
    obtain ⟨_, walked, -⟩ := reached
    have blocks := fun e he => (Tree.nested_blockEvents _ _).reads e (walked.part.subset he)
    exact List.forall_mem_cons.mpr ⟨.scanned _ _, List.forall_mem_cons.mpr ⟨.parsed _, blocks⟩⟩
  | ok =>
    refine List.forall_mem_cons.mpr ⟨.scanned _ _, List.forall_mem_cons.mpr ⟨.parsed _, ?_⟩⟩
    exact List.forall_mem_append.mpr ⟨(Tree.nested_blockEvents _ _).reads,
      List.forall_mem_singleton.mpr (.verified _)⟩

theorem loggedAs_compile (source : String) :
    LoggedAs source (compile source).1 (compile source).2 := by
  rw [compile_eq]
  cases hs : scan source with
  | error pieces => exact .lexical hs
  | ok tokens =>
    dsimp only
    cases hp : Program.ofTokens tokens with
    | error e => exact .syntactic hs hp
    | ok p =>
      dsimp only
      cases hv : p.tree.verify with
      | error e =>
        dsimp only
        rw [← p.length_children_tree]
        exact .semantic hs hp hv (Tree.showsAfter_of_verify p.laidOut_tree hv)
      | ok checked =>
        obtain ⟨tree, s⟩ := checked
        dsimp only
        rw [Tree.events_of_verify p.laidOut_tree hv,
          Tree.size_types_of_verify p.laidOut_tree p.nodup_ids_tree hv, ← p.length_children_tree]
        exact .ok hs hp hv (Typing.check_ok p.tree Typing.bounded_start hv).untyped

/-- The log describes the run, for every source text: the events are those of the stages that it
comes to, and the last of them are about the blocks in the tree of the program. -/
theorem compile_log (source : String) :
    LoggedAs source (compile source).1 (compile source).2 ∧
      (∀ t : Tree, t.Blocks (t.blockEvents 0)) ∧
      ∀ e ∈ (compile source).2, e.Reads e.level e.message :=
  ⟨loggedAs_compile source, Tree.blocks_blockEvents, (loggedAs_compile source).reads⟩

/-- Blocks inside each other are closed from the inside out. A name that is not declared leaves
those around it open. -/
theorem compile_log_nested :
    let nested := "POV f() xD messirve. v: maracuya() xD whenCuando xD\n" ++
      "siuuu (1 panas 1) xD messirve. v: nimodo xD messirve. v:\nbut (1 panas 2) v: v:"
    let stopped := "maracuya() xD whenCuando xD messirve x. but (1 panas 2) v: v:"
    LoggedAs nested (compile nested).1
      [.scanned 37 3, .parsed 2, .opened 1 .function, .closed 0, .opened 1 .main, .opened 2 .loop,
        .opened 3 .ifBranch, .closed 2, .opened 3 .elseBranch, .closed 2, .closed 1, .closed 0,
        .verified 31] ∧
    LoggedAs stopped (compile stopped).1
      [.scanned 17 1, .parsed 1, .opened 1 .main, .opened 2 .loop] := by
  intro nested stopped
  have logged {source : String} {log : List Log.Event} (h : (compile source).2 = log) :
      LoggedAs source (compile source).1 log := by
    rw [← h]
    exact (compile_log source).1
  exact ⟨logged (by decide +kernel), logged (by decide +kernel)⟩

end Mamuth
