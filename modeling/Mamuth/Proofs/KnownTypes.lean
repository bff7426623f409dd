-- What a walk knows of types. It reads them through the numbers of declarations while later
-- nodes have none. What it reads stays as it is to the end: a type that was given is never
-- changed, and the only names in sight without one are those of the functions around.
import Mamuth.Proofs.LookUps
import Mamuth.Proofs.TypeRules

namespace Mamuth.Typing

/-! ## Later states -/

/-- What a state settles. -/
def State.settled (s : State) : Settled where
  standsFor? use := (s.lookUps.find? (·.id = use)).bind (·.found)
  typeOf? := s.typeOf?

/-- Look-ups and types may have been added since, but none was changed. -/
structure Later (s s' : State) : Prop where
  lookUps : s.lookUps <+: s'.lookUps
  types : ∀ (i : Nat) (type : Ty), s.types[i]? = some type → s'.types[i]? = some type

section

variable {s s' s'' : State}

theorem Later.trans (h : Later s s') (h' : Later s' s'') : Later s s'' :=
  ⟨h.lookUps.trans h'.lookUps, fun i type hi => h'.types i type (h.types i type hi)⟩

theorem Later.of_lookUps (hl : s.lookUps <+: s'.lookUps) (hs : s'.types = s.types) : Later s s' :=
  ⟨hl, fun _ _ hi => hs ▸ hi⟩

theorem Later.refl (s : State) : Later s s := .of_lookUps (List.prefix_refl _) rfl

theorem Later.typeOf? (h : Later s s') {y : Symbol} {type : Ty} (hy : s.typeOf? y = some type) :
    s'.typeOf? y = some type := by
  unfold State.typeOf? at hy ⊢
  split at hy
  · exact hy
  · exact h.types _ _ hy

theorem State.typeOf?_node {y : Symbol} {i : Nat} (hd : y.declaration = .node i) :
    s.typeOf? y = s.types[i]? := by rw [State.typeOf?, hd]

/-- A step that looks names up and gives no types. -/
theorem Traces.later {x : Step σ α} {expected : List LookUp} {a : α} (h : Traces s expected (x s))
    (hx : x s = .ok (a, s')) (hs : s'.types = s.types) : Later s s' := by
  rw [hx] at h
  exact .of_lookUps ⟨expected, h.1.symm⟩ hs

/-- Giving a type to a node that had none. -/
theorem later_insert {i : Nat} {type : Ty} (untyped : s.types[i]? = none)
    (hl : s'.lookUps = s.lookUps) (ht : s'.types = s.types.insert i type) : Later s s' := by
  refine ⟨hl ▸ List.prefix_refl _, fun j other hj => ?_⟩
  have apart : i ≠ j := by
    rintro rfl
    cases untyped.symm.trans hj
  rw [ht, getElem?_insert_type, if_neg apart, hj]

/-- Giving types to two nodes that had none. -/
theorem later_insert_insert {i j : Nat} {a b : Ty} (hi : s.types[i]? = none)
    (hj : s.types[j]? = none) (apart : i ≠ j) (hl : s'.lookUps = s.lookUps)
    (ht : s'.types = (s.types.insert i a).insert j b) :
    Later s s' ∧ s'.types[i]? = some a ∧ s'.types[j]? = some b := by
  let mid : State := { s with types := s.types.insert i a }
  have unmet : mid.types[j]? = none := by
    rw [getElem?_insert_type, if_neg apart, hj]
  refine ⟨(later_insert hi rfl rfl : Later s mid).trans (later_insert unmet hl ht), ?_, ?_⟩
  · rw [ht, getElem?_insert_type, if_neg (Ne.symm apart), getElem?_insert_type, if_pos rfl]
  · rw [ht, getElem?_insert_type, if_pos rfl]

end

theorem find?_of_mem {lookUps : List LookUp} {l : LookUp} (once : (lookUps.map (·.id)).Nodup)
    (h : l ∈ lookUps) : lookUps.find? (·.id = l.id) = some l := by
  obtain ⟨other, ho⟩ : ∃ other, lookUps.find? (·.id = l.id) = some other :=
    Option.isSome_iff_exists.mp (List.find?_isSome.mpr ⟨l, h, by simp⟩)
  have same : other.id = l.id := by simpa using List.find?_some ho
  rw [ho, List.inj_on_of_nodup_map once (List.mem_of_find?_eq_some ho) h same]

/-- What a use was found to stand for is what is settled for it, if it is looked up once. -/
theorem standsFor?_of_find? {s S : State} {use : Node} {y : Symbol} (hb : s.table.Bounded)
    (hy : s.find? use.name = some y) (later : Later (s.noting use) S)
    (once : (S.lookUps.map (·.id)).Nodup) : S.settled.standsFor? use.id = some y := by
  have noted : use.lookUp s.known ∈ S.lookUps := by
    apply later.lookUps.subset
    rw [State.lookUps_noting hb]
    simp
  have found : S.lookUps.find? (·.id = use.id) = some (use.lookUp s.known) :=
    find?_of_mem once noted
  simp only [State.settled, found, Option.bind_some, Node.lookUp, ← State.find?_eq hb, hy]

/-! ## What a walk keeps -/

/-- The walk can go on with nodes of the numbers `ids`, inside nodes of the numbers `around`:
these have no types yet, and nothing in sight but the functions among them is without one. -/
structure Ready (s : State) (around ids : List Nat) : Prop where
  bounded : s.table.Bounded
  fresh : Fresh s ids
  apart : ∀ i ∈ around, i ∉ ids
  pending : ∀ i ∈ around, s.types[i]? = none
  unsettled : ∀ y ∈ s.table.symbols, y.category ≠ .variable → s.typeOf? y = none →
    ∃ i ∈ around, y.declaration = .node i

section

variable {s s' S : State} {around ids : List Nat}

/-- The type that a name has when it is looked up is the one that it gives in the end. -/
theorem Ready.typeFrom? (h : Ready s around ids) (later : Later s S) {name : String} {y : Symbol}
    (hy : s.find? name = some y) :
    S.settled.typeFrom? around y = some ((s.typeOf? y).getD .any) := by
  obtain ⟨mem, -, -, counts⟩ := SymbolTable.of_find?_eq_some hy
  rw [Settled.typeFrom?]
  cases ht : s.typeOf? y with
  | none =>
    have category : y.category ≠ .variable := by simpa [ht] using counts
    rw [if_pos (h.unsettled y mem category ht)]
    rfl
  | some type =>
    rw [if_neg]
    · exact later.typeOf? ht
    · rintro ⟨i, hi, hd⟩
      rw [State.typeOf?_node hd, h.pending i hi] at ht
      cases ht

theorem Ready.sameButHistory (h : Ready s around ids) (same : SameButHistory s s') :
    Ready s' around ids where
  bounded := same.1 ▸ h.bounded
  fresh := h.fresh.sameButHistory same
  apart := h.apart
  pending := same.2 ▸ h.pending
  unsettled y hy hc ht := by
    rw [same.1] at hy
    rw [State.typeOf?, same.2] at ht
    exact h.unsettled y hy hc ht

/-- Below a node, the numbers of its children are ready. -/
theorem Ready.below {root : Node} {children : List Tree} {named : Option Symbol}
    (h : Ready s around (Tree.node root children).ids)
    (nodup : (Tree.node root children).ids.Nodup)
    (entered : enter root children s = .ok (named, s')) {i : Nat} {c : Tree}
    (hc : children[i]? = some c) (hp : Place.of root.kind i ≠ .skipped) :
    Ready s' (root.id :: around) c.ids where
  bounded := enter_bounded h.bounded entered
  fresh := fresh_enter nodup h.fresh entered hc hp
  apart := by
    have below : c.ids ⊆ Tree.idsAll children := fun j hj =>
      List.mem_flatMap.mpr ⟨c, List.mem_of_getElem? hc, hj⟩
    rw [Tree.ids_node, List.nodup_cons] at nodup
    intro j hj hi
    rcases List.mem_cons.mp hj with rfl | hj
    · exact nodup.1 (below hi)
    · exact h.apart j hj (by simp [below hi])
  pending := by
    rw [(enter_ok entered).1, List.forall_mem_cons]
    exact ⟨(h.fresh root.id (by simp)).1, h.pending⟩
  unsettled y hy hcat ht := by
    obtain ⟨types, symbols⟩ := enter_symbols entered
    rw [symbols, List.mem_append] at hy
    rcases hy with hy | hy
    · rw [State.typeOf?, types] at ht
      obtain ⟨j, hj, hd⟩ := h.unsettled y hy hcat ht
      exact ⟨j, List.mem_cons_of_mem _ hj, hd⟩
    · unfold declaredOnEntry at hy
      split at hy
      · cases List.mem_singleton.mp hy
        exact absurd rfl hcat
      · cases List.mem_singleton.mp hy
        exact ⟨root.id, List.mem_cons_self, rfl⟩
      · cases hy

/-- Behind a child, what has not been met is still ready. -/
theorem Ready.behind {place : Place} {c c' : Tree} {js : List Nat} (h : Ready s around js)
    (own : Ready s around c.ids) (hl : c.LaidOut) (hp : place ≠ .skipped)
    (disjoint : ∀ j ∈ js, j ∉ c.ids) (hx : place.around c (check c) s = .ok (c', s')) :
    Ready s' around js := by
  obtain ⟨-, table, frame⟩ := Place.around_ok (fun hb h => check_ok c hb h) h.bounded hx
  have declaredBy {y : Symbol}
      (hy : y ∈ place.declared s.table.depth c.root (declared s.table.depth c)) :=
    Place.mem_declared hy (mem_declared _ c)
  refine ⟨?_, Place.fresh_around h.bounded hx h.fresh disjoint, h.apart, fun i hi => ?_, ?_⟩
  · rw [table]
    exact h.bounded.adding fun y hy => (declaredBy hy).1
  · rw [frame i (own.apart i hi), h.pending i hi]
  · intro y hy hcat ht
    rw [table] at hy
    rcases List.mem_append.mp hy with hy | hy
    · rw [own.fresh.keeps frame y hy] at ht
      exact h.unsettled y hy hcat ht
    · obtain ⟨-, i, hi, hd⟩ := declaredBy hy
      have typed : s'.Typed i := (decorates hl).around hx (Or.inl ⟨hp, hi⟩)
      rw [State.Typed, ← State.typeOf?_node hd, ht] at typed
      cases typed

/-- A check adds to what it finds. -/
theorem Ready.later {t t' : Tree} (h : Ready s around t.ids) (hl : t.LaidOut)
    (nodup : t.ids.Nodup) (hx : check t s = .ok (t', s')) : Later s s' := by
  have traces := follows hl nodup s h.bounded h.fresh
  rw [hx] at traces
  refine ⟨⟨_, traces.1.symm⟩, fun i type hi => ?_⟩
  rw [(check_ok t h.bounded hx).frame i, hi]
  intro met
  cases (h.fresh i met).1.symm.trans hi

end

/-! ## Looking names up -/

section

variable {s s' S : State} {use : Node} (hb : s.table.Bounded)
  (once : (S.lookUps.map (·.id)).Nodup)
include hb once

theorem lookUpIfNamed_settled {named : Option Symbol}
    (h : lookUpIfNamed use s = .ok (named, s')) (later : Later s' S) :
    (use.kind = .identifier → ∃ y, named = some y ∧ s.find? use.name = some y ∧
        S.settled.standsFor? use.id = some y) ∧
      (use.kind ≠ .identifier → named = none) := by
  rw [lookUpIfNamed_apply] at h
  by_cases hk : use.kind = .identifier
  · rw [if_pos hk] at h
    split at h
    · rename_i y hy
      cases h
      exact ⟨fun _ => ⟨y, rfl, hy, standsFor?_of_find? hb hy later once⟩, fun hn => absurd hk hn⟩
    · cases h
  · rw [if_neg hk] at h
    cases h
    exact ⟨fun h => absurd h hk, fun _ => rfl⟩

theorem known_of_lookUpIfNamed {named : Option Symbol}
    (h : lookUpIfNamed use s = .ok (named, s')) (later : Later s' S) : S.settled.Known use :=
  fun hk => ((lookUpIfNamed_settled hb once h later).1 hk).imp fun _ found => found.2.2

theorem refuseFunction_settled (h : refuseFunction use s = .ok ((), s')) (later : Later s' S) :
    S.settled.KnownValue use := by
  intro hk
  rw [refuseFunction_apply, if_pos hk] at h
  split at h
  · rename_i y hy
    split at h
    · cases h
    · rename_i category
      cases h
      exact ⟨y, standsFor?_of_find? hb hy later once, category⟩
  · cases h

theorem requireNumeric_settled {operand : Tree}
    (h : requireNumeric operand s = .ok ((), s')) (later : Later s' S) :
    S.settled.Numeric operand.root := by
  rw [requireNumeric_apply] at h
  rw [Settled.Numeric]
  cases hk : operand.root.kind <;> simp only [hk] at h ⊢
  case identifier =>
    split at h
    · rename_i y hy
      split at h
      · rename_i numeric
        cases h
        obtain ⟨type, ht, hn⟩ := (Option.any_eq_true _ _).mp numeric
        have final : S.typeOf? y = some type := later.typeOf? ht
        have either : type = .number ∨ type = .any := by simpa [Ty.isNumeric] using hn
        refine ⟨y, standsFor?_of_find? hb hy later once, ?_⟩
        rcases either with rfl | rfl
        · exact Or.inl final
        · exact Or.inr final
      · cases h
    · cases h
  all_goals cases h

end

/-! ## Before the children of a node -/

section

variable {S : State} {root : Node} {named : Option Symbol} {s s' : State}

theorem enter_unnamed {children : List Tree} (hk : root.kind ∉ [.invocation, .return])
    (h : enter root children s = .ok (named, s')) : named = none := by
  generalize hx : enter root children = step at h
  unfold enter at hx
  split at hx <;> subst hx
  case h_1 =>
    obtain ⟨_, s₁, -, h⟩ := Step.bind_ok.mp h
    cases h
    rfl
  case h_5 => simp_all
  case h_7 => simp_all
  all_goals
    cases h
    try rfl

theorem enter_return_nothing (hk : root.kind = .return)
    (h : enter root [] s = .ok (named, s')) : named = none := by
  simp only [enter, hk] at h
  cases h
  rfl

variable (hb : s.table.Bounded) (once : (S.lookUps.map (·.id)).Nodup)
include hb once

theorem enter_assignment {target value : Tree} (hk : root.kind = .assignment)
    (h : enter root [target, value] s = .ok (named, s')) (later : Later s' S) :
    S.settled.Known value.root := by
  simp only [enter, hk] at h
  obtain ⟨found, s₁, looked, h⟩ := Step.bind_ok.mp h
  cases h
  have after : Later s₁ S := by
    refine .trans ?_ later
    exact .of_lookUps (List.prefix_refl _) rfl
  exact known_of_lookUpIfNamed hb once looked after

theorem enter_invocation {callee : Tree} {rest : List Tree} (hk : root.kind = .invocation)
    (h : enter root (callee :: rest) s = .ok (named, s')) (later : Later s' S) :
    ∃ y, named = some y ∧ y.category = .function ∧ s.find? callee.root.name = some y ∧
      S.settled.standsFor? callee.root.id = some y := by
  simp only [enter, hk] at h
  obtain ⟨y, s₁, looked, h⟩ := Step.bind_ok.mp h
  rw [lookUp_apply] at looked
  split at looked <;> cases looked
  rename_i hy
  split at h <;> cases h
  rename_i category
  exact ⟨y, rfl, category, hy, standsFor?_of_find? hb hy later once⟩

end

end Mamuth.Typing
