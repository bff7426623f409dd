-- Declarations that nothing uses. An assignment or a function more at the top of a program either
-- fails on its own or makes no difference to the rest: what it declares is one more symbol, under a
-- name that nothing looks up, and the types that it gets are those of its own nodes.
import Mamuth.Proofs.Globals
import Mamuth.Proofs.Replacing
import Mamuth.Proofs.Unfinished

namespace Mamuth

/-! ## One more declaration -/

/-- The symbol that an assignment or a function at the top declares. -/
def Tree.globalSymbol? (t : Tree) : Option Symbol :=
  match t.root.kind, t.children with
  | .assignment, target :: _ => some target.root.globalVariable
  | .function, _ => some t.root.globalFunction
  | _, _ => none

/-- The tree with one more child, at an index. -/
def Tree.insertChild (t : Tree) (i : Nat) (c : Tree) : Tree :=
  node t.root (t.children.insertIdx i c)

theorem Tree.insertChild_append (root : Node) (before after : List Tree) (c : Tree) :
    (node root (before ++ after)).insertChild before.length c =
      node root (before ++ c :: after) := by
  refine congrArg (node root) ?_
  change (before ++ after).insertIdx before.length c = before ++ c :: after
  induction before with
  | nil => rfl
  | cons t ts ih => rw [List.cons_append, List.length_cons, List.insertIdx_succ_cons, ih]; rfl

namespace Typing

theorem declared_of_globalSymbol {t : Tree} {y : Symbol} (hl : t.LaidOut)
    (h : t.globalSymbol? = some y) : declared 0 t = [y] := by
  obtain ⟨root, children⟩ := t
  unfold Tree.globalSymbol? at h
  split at h
  · rename_i target rest kind shape
    cases h
    change root.kind = .assignment at kind
    obtain ⟨_, value, rfl, -⟩ := hl.assignment kind
    cases shape
    exact declared_assignment 0 hl kind
  · rename_i kind
    cases h
    exact declared_function kind 0
  · cases h

/-- A tree that was checked makes no difference to what does not use the names that it declares. -/
theorem agree_of_checked {t t' : Tree} {s s' : State} {unused : String → Prop}
    (bounded : s.table.Bounded) (fresh : Fresh s t.ids)
    (names : ∀ y ∈ declared s.table.depth t, unused y.name) (h : check t s = .ok (t', s')) :
    s.AgreeBut t.ids unused s' := by
  have checked := check_ok t bounded h
  have own : ∀ y ∈ declared s.table.depth t, y.isOf t.ids := by
    intro y hy
    obtain ⟨-, i, hi, declares⟩ := mem_declared _ t hy
    rw [Symbol.isOf, declares]
    exact decide_eq_true hi
  refine ⟨?_, ?_, fun y hy hof => ?_, fun i hi => (checked.frame i hi).symm⟩
  · rw [checked.table, SymbolTable.depth_adding]
  · have none : (declared s.table.depth t).filter (!·.isOf t.ids) = [] :=
      List.filter_eq_nil_iff.mpr fun y hy => by simp [own y hy]
    rw [checked.table, SymbolTable.adding, List.filter_append, none, List.append_nil]
  · rw [checked.table, SymbolTable.adding, List.mem_append, List.mem_append, ← or_assoc,
      or_self] at hy
    rcases hy with hy | hy
    · rw [fresh.not_isOf y hy] at hof
      cases hof
    · exact names y hy

/-! ## Programs -/

section

variable {root : Node} (hk : root.kind = .program)
include hk

theorem check_program (children : List Tree) : check (.node root children) = (do
    let children ← (checkAll (fun _ => .plain) children).leaving (.node root)
    giveType (.node root children) .none) := by
  have plain : root.kind.isPlain := by rw [hk]; rfl
  have places : Place.of root.kind = fun _ => .plain := funext (place_program hk)
  have type (children : List Tree) : typeFrom root children = .none := by rw [typeFrom, hk]
  rw [check, enter_plain plain, places, Step.leaving_pure, pure_bind]
  simp only [leave_plain plain, type]

/-- The walk fails at one of the first constructs, whatever stands behind them. -/
theorem check_program_error {ts : List Tree} {s : State} {e : Stopped (List Tree)}
    (h : checkAll (fun _ => .plain) ts s = .error e) (us : List Tree) :
    check (.node root (ts ++ us)) s = .error ⟨e.fault, .node root (e.left ++ us), e.state⟩ := by
  have walked : checkAll (fun _ => .plain) (ts ++ us) s =
      .error ⟨e.fault, e.left ++ us, e.state⟩ := by
    rw [checkAll_append, Step.bind_error]
    exact .inl (Step.leaving_error.mpr ⟨e, h, rfl⟩)
  rw [check_program hk, Step.bind_error]
  exact .inl (Step.leaving_error.mpr ⟨_, walked, rfl⟩)

variable {before before' : List Tree} {s s₁ : State}
  (first : checkAll (fun _ => .plain) before s = .ok (before', s₁)) (after : List Tree)
include first

/-- The walk has passed the first constructs and goes on with those behind them. -/
theorem check_program_behind : check (.node root (before ++ after)) s = (do
    let after' ← (checkAll (fun _ => .plain) after).leaving fun left =>
      .node root (before' ++ left)
    giveType (.node root (before' ++ after')) .none : Step Tree Tree) s₁ := by
  rw [check_program hk, checkAll_append]
  simp only [Step.leaving_bind, Step.leaving_leaving, Step.leaving_pure, bind_assoc, pure_bind]
  exact Step.bind_of_ok (Step.leaving_ok.mpr first) _

theorem reaches_behind (c : Tree) :
    Reaches (.node root (before ++ c :: after)) s [before.length] c s₁ := by
  have plain : Place.of root.kind before.length = .plain := place_program hk _
  have entered : enter root (before ++ c :: after) s = .ok (none, s) := by
    rw [enter_plain (by rw [hk]; rfl)]
    rfl
  have walked : checkAll (Place.of root.kind) ((before ++ c :: after).take before.length) s =
      .ok (before', s₁) := by
    rw [List.take_left, funext (place_program hk), first]
  have comes : ComesTo root (before ++ c :: after) s before.length c s₁ :=
    ⟨by rw [plain]; decide, by simp, none, s, before', entered, walked⟩
  exact .inside comes (by rw [plain]; rfl) .here

end

/-! ## One more construct -/

/-- Behind the first constructs the walk is at the top level, and what has other numbers is new. -/
theorem passed_start {place : Nat → Place} {before before' : List Tree} {s : State} {is : List Nat}
    (first : checkAll place before .start = .ok (before', s))
    (apart : ∀ i ∈ is, i ∉ Tree.idsAll before) :
    s.table.Bounded ∧ s.table.depth = 0 ∧ Fresh s is := by
  have passed := checkAll_ok place before bounded_start first
  refine ⟨?_, ?_, passed.fresh (fresh_start is) apart⟩
  · rw [passed.table]
    exact bounded_start.adding depth_of_mem_declared
  · rw [passed.table]
    rfl

/-- The check of a program with one more construct: it fails there, or it ends as that of the
program without it. -/
theorem check_inserted {root : Node} (hk : root.kind = .program) {before after : List Tree}
    {c : Tree} {y : Symbol} (declares : declared 0 c = [y])
    (ids : (Tree.node root (before ++ c :: after)).ids.Nodup)
    (avoids : ∀ u ∈ before ++ after, u.Avoids c.ids (· = y.name)) :
    (∃ s e, Reaches (.node root (before ++ c :: after)) .start [before.length] c s ∧
      check c s = .error e) ∨
    ∃ c', EndSame c.ids (· = y.name) (fun t t' => t' = t.insertChild before.length c')
      (fun t t' => t' = t.insertChild before.length c')
      (check (.node root (before ++ after)) .start)
      (check (.node root (before ++ c :: after)) .start) := by
  obtain ⟨early, late⟩ := List.forall_mem_append.mp avoids
  have apart := (Tree.apart_of_nodup ids).2
  have start : State.start.AgreeBut c.ids (· = y.name) .start := by
    refine ⟨rfl, rfl, fun z hz own => ?_, fun _ _ => rfl⟩
    rw [List.mem_append, or_self] at hz
    rw [(fresh_start c.ids).not_isOf z hz] at own
    cases own
  cases first : checkAll (fun _ => .plain) before .start with
  | error e =>
    -- The walk does not come to the construct, so it stays as it is.
    have same := checkAll_agree (fun _ => .plain) before early _ _ start
    rw [first] at same
    rw [check_program_error hk first, check_program_error hk first,
      ← length_left_of_checkAll first]
    exact .inr ⟨c, rfl, (Tree.insertChild_append root e.left after c).symm, same.2.2⟩
  | ok r =>
    obtain ⟨before', s₁⟩ := r
    obtain ⟨bounded, depth, fresh⟩ := passed_start first fun i hi => (apart i hi).2.1
    cases own : check c s₁ with
    | error e => exact .inl ⟨s₁, e, reaches_behind hk first after c, own⟩
    | ok r =>
      obtain ⟨c', s₂⟩ := r
      have agree : s₁.AgreeBut c.ids (· = y.name) s₂ :=
        agree_of_checked bounded fresh (by rw [depth, declares]; simp) own
      have second : checkAll (fun _ => .plain) (before ++ [c]) .start =
          .ok (before' ++ [c'], s₂) :=
        checkAll_append_ok.mpr ⟨before', s₁, [c'], first,
          checkAll_cons_ok.mpr ⟨c', s₂, [], own, rfl, rfl⟩, rfl⟩
      have inserted (root : Node) (ts : List Tree) : Tree.node root (before' ++ [c'] ++ ts) =
          (Tree.node root (before' ++ ts)).insertChild before.length c' := by
        rw [← (checkAll_skipped first).1, Tree.insertChild_append, List.append_assoc]
        rfl
      refine .inr ⟨c', ?_⟩
      rw [List.append_cons before c after, check_program_behind hk first,
        check_program_behind hk second]
      refine ((checkAll_agree _ after late s₁ s₂ agree).leaving ?_).bind ?_
      · rintro left _ rfl
        exact inserted root left
      · rintro after' _ t t' rfl ht
        exact ⟨inserted _ after', ht.giveType _ _⟩

end Typing

/-- An assignment or a function more at the top of a program, with numbers of its own and with a
name that no identifier of the program has, wherever it stands before the entry point. The check
fails inside it, or the outcome is the one of the program without it: the nodes have the same types
and the table has one symbol more, or the check fails with the same fault. -/
theorem Program.verify_unused {p : Program} {i : Nat} {c : Tree} {y : Symbol}
    (place : i ≤ p.tree.children.length) (laidOut : c.LaidOut)
    (declares : c.globalSymbol? = some y) (ids : (p.tree.insertChild i c).ids.Nodup)
    (unused : ∀ u ∈ p.tree.subtrees, u.root.kind = .identifier → u.root.name ≠ y.name) :
    (∃ s e left, Typing.Reaches (p.tree.insertChild i c) .start [i] c s ∧
      Typing.check c s = .error e ∧
      (p.tree.insertChild i c).verify = .error ⟨e.fault, left, e.state⟩) ∨
    ∃ c', (∀ t s, p.tree.verify = .ok (t, s) →
        ∃ s', (p.tree.insertChild i c).verify = .ok (t.insertChild i c', s') ∧
          (∀ j ∈ p.tree.ids, s'.types[j]? = s.types[j]?) ∧
          ∃ before after, s.table.symbols = before ++ after ∧
            s'.table = ⟨before ++ y :: after, s.table.depth⟩) ∧
      ∀ e, p.tree.verify = .error e →
        ∃ s', (p.tree.insertChild i c).verify = .error ⟨e.fault, e.left.insertChild i c', s'⟩ := by
  have laid := p.laidOut_tree
  have hk : p.tree.root.kind = .program := rfl
  have own := Typing.declared_of_globalSymbol laidOut declares
  generalize p.tree = t at *
  obtain ⟨root, children⟩ := t
  change i ≤ children.length at place
  change root.kind = .program at hk
  obtain ⟨before, after, rfl, rfl⟩ :
      ∃ before after, children = before ++ after ∧ i = before.length := by
    refine ⟨children.take i, children.drop i, (List.take_append_drop i children).symm, ?_⟩
    rw [List.length_take, Nat.min_eq_left place]
  rw [Tree.insertChild_append] at ids ⊢
  have outside : ∀ j ∈ (Tree.node root (before ++ after)).ids, j ∉ c.ids := by
    intro j hj hc
    obtain ⟨top, early, late⟩ := (Tree.apart_of_nodup ids).2 j hc
    rw [Tree.ids_node, Tree.idsAll, List.flatMap_append, List.mem_cons, List.mem_append] at hj
    exact hj.elim top fun hj => hj.elim early late
  have avoids : (Tree.node root (before ++ after)).Avoids c.ids (· = y.name) :=
    ⟨laid, outside, unused⟩
  rcases Typing.check_inserted hk own ids avoids.child with ⟨s, e, reached, fails⟩ | ⟨c', same⟩
  · obtain ⟨left, whole, -⟩ := reached.error fails
    exact .inl ⟨s, e, left, reached, fails, whole⟩
  · refine .inr ⟨c', fun t s verified => ?_, fun e fails => ?_⟩
    · rw [show Typing.check (.node root (before ++ after)) .start = _ from verified] at same
      obtain ⟨_, s', again, rfl, agree⟩ := same.of_ok
      refine ⟨s', again, fun j hj => (agree.types j (outside j hj)).symm, ?_⟩
      have table := Tree.table_of_verify verified
      have table' := Tree.table_of_verify again
      rw [Typing.declared_program hk, List.flatMap_append] at table table'
      rw [List.flatMap_cons, own] at table'
      refine ⟨standardSymbols ++ before.flatMap (Typing.declared 0),
        after.flatMap (Typing.declared 0), ?_, ?_⟩
      · rw [table, List.append_assoc]
      · rw [table, table', List.append_assoc]
        rfl
    · rw [show Typing.check (.node root (before ++ after)) .start = _ from fails] at same
      obtain ⟨⟨_, _, s'⟩, again, rfl, rfl, -⟩ := same.of_error
      exact ⟨s', again⟩

/-- The function of `POV f() xD messirve. v:` is added to the program of
`x anotado 1. maracuya() xD messirve x. v:`, behind its assignment. -/
theorem Program.verify_unused_function :
    let p : Program :=
      ⟨[⟨⟨"x", ⟨1, 1⟩⟩, .value (.literal .integer ⟨"1", ⟨1, 11⟩⟩)⟩], [],
        ⟨⟨1, 14⟩, .last (.return ⟨1, 28⟩ (some (.value (.identifier ⟨"x", ⟨1, 37⟩⟩))))⟩⟩
    let f : Function := ⟨⟨2, 1⟩, ⟨"f", ⟨2, 5⟩⟩, [], .last (.return ⟨2, 12⟩ none)⟩
    let c : Tree := (f.tree.numberFrom 10).1
    let y : Symbol := ⟨"f", 0, .function, .node c.root.id⟩
    1 ≤ p.tree.children.length ∧ c.LaidOut ∧ c.globalSymbol? = some y ∧
      (p.tree.insertChild 1 c).ids.Nodup ∧
      (∀ u ∈ p.tree.subtrees, u.root.kind = .identifier → u.root.name ≠ y.name) ∧
      ∃ t s c' s', p.tree.verify = .ok (t, s) ∧
        (p.tree.insertChild 1 c).verify = .ok (t.insertChild 1 c', s') ∧
        (∀ j ∈ p.tree.ids, s'.types[j]? = s.types[j]?) ∧
        ∃ before after, s.table.symbols = before ++ after ∧
          s'.table = ⟨before ++ y :: after, s.table.depth⟩ := by
  intro p f c y
  have place : 1 ≤ p.tree.children.length := by decide
  have laidOut : c.LaidOut := by decide
  have declares : c.globalSymbol? = some y := rfl
  have ids : (p.tree.insertChild 1 c).ids.Nodup := by decide
  have unused : ∀ u ∈ p.tree.subtrees, u.root.kind = .identifier → u.root.name ≠ y.name := by
    decide
  obtain ⟨s, verified⟩ := Tree.ok_of_verdict (show p.tree.verdict.1 = none by decide)
  obtain ⟨s', again⟩ :=
    Tree.ok_of_verdict (show (p.tree.insertChild 1 c).verdict.1 = none by decide)
  refine ⟨place, laidOut, declares, ids, unused, ?_⟩
  rcases verify_unused place laidOut declares ids unused with ⟨_, _, _, -, -, fails⟩ | ⟨c', ok, -⟩
  · cases again.symm.trans fails
  · obtain ⟨s', again, types, table⟩ := ok _ s verified
    exact ⟨_, s, c', s', verified, again, types, table⟩

end Mamuth
