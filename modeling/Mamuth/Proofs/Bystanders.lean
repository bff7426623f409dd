-- What some nodes have declared and which types they have makes no difference to a check that never
-- uses their names. It goes the same way from states that differ in nothing else.
import Mathlib.Data.List.Basic
import Mathlib.Data.List.Find
import Mamuth.Proofs.Rechecking

namespace Mamuth

/-- Declared by one of the nodes of these numbers. -/
def Symbol.isOf (is : List Nat) (y : Symbol) : Bool :=
  match y.declaration with
  | .node i => i ∈ is
  | .builtin _ => false

namespace Typing

/-- The states agree on all but what the nodes of these numbers have declared, under names that are
not used, and the types of these nodes. -/
structure State.AgreeBut (is : List Nat) (unused : String → Prop) (s s' : State) : Prop where
  depth : s.table.depth = s'.table.depth
  symbols : s.table.symbols.filter (!·.isOf is) = s'.table.symbols.filter (!·.isOf is)
  unused : ∀ y ∈ s.table.symbols ++ s'.table.symbols, y.isOf is → unused y.name
  types : ∀ i ∉ is, s.types[i]? = s'.types[i]?

/-- Two runs end in the same way, and the states then agree as before. -/
abbrev EndSame (is : List Nat) (unused : String → Prop) (A : α → α → Prop) (L : σ → σ → Prop) :
    Except (Stopped σ) (α × State) → Except (Stopped σ) (α × State) → Prop :=
  Matches (State.AgreeBut is unused) Eq A L

variable {is : List Nat} {unused : String → Prop} {s s' : State}

namespace State.AgreeBut

theorem typeOf? (h : s.AgreeBut is unused s') {y : Symbol} (hy : y.isOf is = false) :
    s.typeOf? y = s'.typeOf? y := by
  unfold State.typeOf?
  unfold Symbol.isOf at hy
  split
  · rfl
  · rename_i i declared
    rw [declared] at hy
    exact h.types i (of_decide_eq_false hy)

/-- What these nodes have declared is never found under a name that is used. -/
theorem find?_eq {symbols : List Symbol} (own : ∀ y ∈ symbols, y.isOf is → unused y.name)
    {name : String} (used : ¬ unused name) (test : Symbol → Bool) :
    (symbols.reverse.find? fun y => y.name = name && test y) =
      (symbols.filter (!·.isOf is)).reverse.find? fun y => y.name = name && test y := by
  rw [← List.filter_reverse, List.find?_filter]
  refine List.find?_congr fun y hy => ?_
  cases hi : y.isOf is with
  | false => simp
  | true =>
    have other : y.name ≠ name := fun same =>
      used (same ▸ own y (List.mem_reverse.mp hy) hi)
    simp [other]

/-- A name that is used stands for the same, and for nothing of these nodes. -/
theorem find? (h : s.AgreeBut is unused s') {name : String} (used : ¬ unused name) :
    s.find? name = s'.find? name ∧ ∀ y ∈ s.find? name, y.isOf is = false := by
  have own := List.forall_mem_append.mp h.unused
  have found {s : State} (own : ∀ y ∈ s.table.symbols, y.isOf is → unused y.name) :
      s.find? name = (s.table.symbols.filter (!·.isOf is)).reverse.find? fun y =>
        y.name = name && (y.depth ≤ s.table.depth &&
          (y.category ≠ .variable || (s.typeOf? y).isSome)) := by
    rw [← find?_eq own used]
    simp only [State.find?, SymbolTable.find?, Bool.and_assoc]
  have others : ∀ y ∈ (s'.table.symbols.filter (!·.isOf is)).reverse, y.isOf is = false := by
    simp
  constructor
  · rw [found own.1, found own.2, h.symbols, h.depth]
    refine List.find?_congr fun y hy => ?_
    rw [h.typeOf? (others y hy)]
  · intro y hy
    rw [found own.1, h.symbols] at hy
    exact others y (List.mem_of_find?_eq_some hy)

/-- Where all names are used, nothing is declared by these nodes. -/
theorem table_eq (h : s.AgreeBut is (fun _ => False) s') : s.table = s'.table := by
  have others {ys : List Symbol} (hy : ∀ y ∈ ys, y.isOf is → False) :
      ys.filter (!·.isOf is) = ys :=
    List.filter_eq_self.mpr fun y mem => by simpa using hy y mem
  have own := List.forall_mem_append.mp h.unused
  have symbols := h.symbols
  rw [others own.1, others own.2] at symbols
  exact (SymbolTable.mk.injEq ..).mpr ⟨symbols, h.depth⟩

theorem noting (h : s.AgreeBut is unused s') (use use' : Node) :
    (s.noting use).AgreeBut is unused (s'.noting use') := ⟨h.depth, h.symbols, h.unused, h.types⟩

theorem declare (h : s.AgreeBut is unused s') (name : String) (category : Symbol.Category) {i : Nat}
    (hi : i ∉ is) : State.AgreeBut is unused
      { s with table := s.table.insert name category (.node i) }
      { s' with table := s'.table.insert name category (.node i) } := by
  have other (depth : Nat) : (Symbol.mk name depth category (.node i)).isOf is = false :=
    decide_eq_false hi
  refine ⟨h.depth, ?_, fun y hy own => ?_, h.types⟩
  · simp [SymbolTable.insert, List.filter_append, h.symbols, h.depth, other]
  · simp only [SymbolTable.insert, List.mem_append, List.mem_singleton] at hy
    rcases hy with (hy | rfl) | (hy | rfl)
    · exact h.unused y (List.mem_append_left _ hy) own
    · rw [other] at own
      cases own
    · exact h.unused y (List.mem_append_right _ hy) own
    · rw [other] at own
      cases own

theorem openBlock (h : s.AgreeBut is unused s') (events events' : List Event) :
    State.AgreeBut is unused ⟨s.table.openBlock, s.types, events⟩
      ⟨s'.table.openBlock, s'.types, events'⟩ :=
  ⟨congrArg (· + 1) h.depth, h.symbols, h.unused, h.types⟩

theorem closeBlock (h : s.AgreeBut is unused s') (events events' : List Event) :
    State.AgreeBut is unused ⟨s.table.closeBlock, s.types, events⟩
      ⟨s'.table.closeBlock, s'.types, events'⟩ := by
  refine ⟨congrArg (· - 1) h.depth, ?_, fun y hy => h.unused y ?_, h.types⟩
  · simp only [SymbolTable.closeBlock]
    rw [List.filter_comm, h.symbols, h.depth, List.filter_comm]
  · simp only [SymbolTable.closeBlock, List.mem_append, List.mem_filter] at hy
    exact List.mem_append.mpr (hy.imp And.left And.left)

theorem giveType (h : s.AgreeBut is unused s') (i : Nat) (type : Ty) :
    State.AgreeBut is unused { s with types := s.types.insert i type }
      { s' with types := s'.types.insert i type } := by
  refine ⟨h.depth, h.symbols, h.unused, fun j hj => ?_⟩
  rw [getElem?_insert_type, getElem?_insert_type, h.types j hj]

end State.AgreeBut

/-! ## Steps -/

/-- Found in both runs, and not declared by these nodes. -/
abbrev SameOther (is : List Nat) (found found' : Option Symbol) : Prop :=
  found = found' ∧ ∀ y ∈ found, y.isOf is = false

theorem lookUp_agree (h : s.AgreeBut is unused s') {use : Node} (used : ¬ unused use.name) :
    EndSame is unused (fun y y' => SameOther is (some y) (some y')) (fun _ _ => True)
      (lookUp use s) (lookUp use s') := by
  obtain ⟨same, other⟩ := h.find? used
  rw [lookUp_apply, lookUp_apply, ← same]
  cases found : s.find? use.name with
  | none => exact ⟨rfl, trivial, h.noting use use⟩
  | some y => exact ⟨⟨rfl, found ▸ other⟩, h.noting use use⟩

theorem lookUpIfNamed_agree (h : s.AgreeBut is unused s') {use : Node}
    (used : use.kind = .identifier → ¬ unused use.name) :
    EndSame is unused (SameOther is) (fun _ _ => True) (lookUpIfNamed use s)
      (lookUpIfNamed use s') := by
  unfold lookUpIfNamed
  split
  · rename_i named
    rw [map_eq_pure_bind]
    exact (lookUp_agree h (used named)).bind fun _ _ _ _ found ht => ⟨found, ht⟩
  · exact ⟨⟨rfl, by simp⟩, h⟩

theorem refuseFunction_agree (h : s.AgreeBut is unused s') {argument : Node}
    (used : argument.kind = .identifier → ¬ unused argument.name) :
    EndSame is unused Eq (fun _ _ => True) (refuseFunction argument s)
      (refuseFunction argument s') := by
  refine (lookUpIfNamed_agree h used).bind ?_
  rintro named _ t t' ⟨rfl, -⟩ ht
  cases named with
  | none => exact ⟨rfl, ht⟩
  | some symbol =>
    dsimp only
    split
    · exact ⟨rfl, trivial, ht⟩
    · exact ⟨rfl, ht⟩

theorem requireNumeric_agree (h : s.AgreeBut is unused s') {operand : Tree}
    (used : operand.root.kind = .identifier → ¬ unused operand.root.name) :
    EndSame is unused Eq (fun _ _ => True) (requireNumeric operand s)
      (requireNumeric operand s') := by
  rw [requireNumeric_apply, requireNumeric_apply]
  split
  · rename_i named
    obtain ⟨same, other⟩ := h.find? (used named)
    rw [← same]
    cases found : s.find? operand.root.name with
    | none => exact ⟨rfl, trivial, h.noting _ _⟩
    | some y =>
      dsimp only
      rw [h.typeOf? (other y found)]
      split
      · exact ⟨rfl, h.noting _ _⟩
      · exact ⟨rfl, trivial, h.noting _ _⟩
  · exact ⟨rfl, h⟩
  · exact ⟨rfl, h⟩
  · exact ⟨rfl, trivial, h⟩

end Typing

/-! ## Trees without these nodes -/

/-- The tree has none of these nodes, and uses none of the names. -/
structure Tree.Avoids (is : List Nat) (unused : String → Prop) (t : Tree) : Prop where
  laidOut : t.LaidOut
  ids : ∀ i ∈ t.ids, i ∉ is
  names : ∀ u ∈ t.subtrees, u.root.kind = .identifier → ¬ unused u.root.name

theorem Tree.Avoids.child {is : List Nat} {unused : String → Prop} {root : Node}
    {children : List Tree} (h : (node root children).Avoids is unused) :
    ∀ c ∈ children, c.Avoids is unused := by
  intro c hc
  refine ⟨h.laidOut.child c hc, fun i hi => h.ids i ?_, fun u hu => h.names u ?_⟩
  · rw [ids_node]
    exact List.mem_cons_of_mem _ (List.mem_flatMap.mpr ⟨c, hc, hi⟩)
  · exact List.mem_cons_of_mem _ (mem_subtreesAll.mpr ⟨c, hc, hu⟩)

theorem Tree.Avoids.used {is : List Nat} {unused : String → Prop} {t : Tree}
    (h : t.Avoids is unused) (named : t.root.kind = .identifier) : ¬ unused t.root.name :=
  h.names t t.self_mem_subtrees named

theorem Tree.Avoids.id {is : List Nat} {unused : String → Prop} {t : Tree}
    (h : t.Avoids is unused) : t.root.id ∉ is := h.ids _ t.id_mem_ids

namespace Typing

section

variable {root : Node} {children : List Tree}

theorem giveType_agree (h : s.AgreeBut is unused s') (t : Tree) (type : Ty) {L : σ → σ → Prop} :
    EndSame is unused Eq L ((giveType t type : Step σ Tree) s) (giveType t type s') :=
  ⟨rfl, h.giveType _ _⟩

theorem enter_agree (h : s.AgreeBut is unused s')
    (avoids : (Tree.node root children).Avoids is unused) :
    EndSame is unused (SameOther is) (fun _ _ => True) (enter root children s)
      (enter root children s') := by
  have none : SameOther is none none := ⟨rfl, by simp⟩
  have child := avoids.child
  generalize hx : enter root children = step
  unfold enter at hx
  split at hx <;> subst hx
  case h_1 target value hk =>
    refine (lookUpIfNamed_agree h (child value (by simp)).used).bind fun _ _ _ _ _ ht => ?_
    exact ⟨none, ht.declare _ _ (child target (by simp)).id⟩
  case h_2 | h_4 | h_6 => exact ⟨rfl, trivial, h⟩
  case h_3 => exact ⟨none, h⟩
  case h_5 callee rest hk =>
    obtain ⟨_, _, same, named, -⟩ := avoids.laidOut.invocation hk
    cases same
    refine (lookUp_agree h ((child callee (by simp)).used named)).bind ?_
    rintro y _ t t' ⟨⟨⟩, other⟩ ht
    split
    · exact ⟨⟨rfl, other⟩, ht⟩
    · exact ⟨rfl, trivial, ht⟩
  case h_7 value _ hk => exact lookUpIfNamed_agree h (child value (by simp)).used
  case h_8 => exact ⟨none, (h.declare root.name .function avoids.id).openBlock _ _⟩
  case h_9 | h_10 | h_11 | h_12 => exact ⟨none, h.openBlock _ _⟩
  case h_13 => exact ⟨none, h⟩

theorem leave_agree (h : s.AgreeBut is unused s') {named : Option Symbol}
    (other : ∀ y ∈ named, y.isOf is = false) :
    EndSame is unused Eq Eq (leave root named children s) (leave root named children s') := by
  generalize hx : leave root named children = step
  unfold leave at hx
  split at hx <;> subst hx
  case h_1 target value hk =>
    refine (giveType_agree h target value.type).bind ?_
    rintro target' _ t t' rfl ht
    exact giveType_agree ht _ _
  case h_2 left sign right hk =>
    cases left.type.common? right.type with
    | none => exact ⟨rfl, rfl, h⟩
    | some common =>
      refine (giveType_agree h sign common).bind ?_
      rintro sign' _ t t' rfl ht
      exact giveType_agree ht _ _
  case h_8 =>
    cases named with
    | none => exact giveType_agree h _ _
    | some y =>
      refine Matches.bind (A := State.AgreeBut is unused) ⟨h, h⟩ fun r r' t t' hr ht => ?_
      rw [hr.typeOf? (other y rfl)]
      exact giveType_agree ht _ _
  all_goals
    exact Matches.bind (A := Eq) ⟨rfl, h.closeBlock _ _⟩ fun _ _ _ _ _ ht =>
      giveType_agree ht _ _

theorem around_agree {c : Tree} (place : Place) (avoids : c.Avoids is unused)
    (own : ∀ s s', s.AgreeBut is unused s' → EndSame is unused Eq Eq (check c s) (check c s'))
    (h : s.AgreeBut is unused s') :
    EndSame is unused Eq Eq (place.around c (check c) s) (place.around c (check c) s') := by
  cases place with
  | skipped => exact ⟨rfl, h⟩
  | plain => exact own s s' h
  | parameter =>
    exact Matches.bind (A := Eq) ⟨rfl, h.declare _ _ avoids.id⟩ fun _ _ _ _ _ ht => own _ _ ht
  | argument =>
    exact ((refuseFunction_agree h avoids.used).leaving fun _ _ _ => rfl).bind
      fun _ _ _ _ _ ht => own _ _ ht
  | compared =>
    exact ((lookUpIfNamed_agree h avoids.used).leaving fun _ _ _ => rfl).bind
      fun _ _ _ _ _ ht => own _ _ ht
  | operand =>
    refine (own s s' h).bind_of_ok ?_
    rintro c' _ t t' checked rfl ht
    have name : c'.root.name = c.root.name :=
      (congrArg Node.name (roots_of_untyped (untyped_of_check checked)) :)
    have used : c'.root.kind = .identifier → ¬ unused c'.root.name := by
      rw [kind_of_check checked, name]
      exact avoids.used
    exact ((requireNumeric_agree ht used).leaving fun _ _ _ => rfl).bind
      fun _ _ _ _ _ hr => ⟨rfl, hr⟩

end

mutual

theorem check_agree (t : Tree) (avoids : t.Avoids is unused) (s s' : State)
    (h : s.AgreeBut is unused s') : EndSame is unused Eq Eq (check t s) (check t s') := by
  cases t with
  | node root children =>
    rw [check]
    refine ((enter_agree h avoids).leaving fun _ _ _ => rfl).bind ?_
    rintro named _ r r' ⟨rfl, other⟩ hr
    refine ((checkAll_agree (Place.of root.kind) children avoids.child r r' hr).leaving
      fun _ _ => congrArg _).bind ?_
    rintro children' _ r r' rfl hr
    exact leave_agree hr other

theorem checkAll_agree (place : Nat → Place) (ts : List Tree)
    (avoids : ∀ t ∈ ts, t.Avoids is unused) (s s' : State) (h : s.AgreeBut is unused s') :
    EndSame is unused Eq Eq (checkAll place ts s) (checkAll place ts s') := by
  cases ts with
  | nil => exact ⟨rfl, h⟩
  | cons t ts =>
    rw [List.forall_mem_cons] at avoids
    rw [checkAll]
    refine ((around_agree (place 0) avoids.1 (check_agree t avoids.1) h).leaving
      fun _ _ => congrArg (· :: ts)).bind ?_
    rintro t' _ r r' rfl hr
    refine ((checkAll_agree (fun i => place (i + 1)) ts avoids.2 r r' hr).leaving
      fun _ _ => congrArg (t' :: ·)).bind ?_
    rintro ts' _ r r' rfl hr
    exact ⟨rfl, hr⟩

end

end Typing

end Mamuth
