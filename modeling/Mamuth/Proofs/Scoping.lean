-- Lexical scoping, read off a tree alone. A node is seen in its place, with the nodes above
-- it. A declaration is in sight of a use when it comes first and the block that it stands in
-- is around the use, and a use stands for the last declaration of its name in sight.
import Mathlib.Data.List.Nodup
import Mamuth.Proofs.Places

namespace Mamuth

open Typing (Place declared declaredAll declaredOnEntry declared_leaf declared_of_place
  parameter_of_place)

/-! ## Places in a tree -/

/-- A node in its place in a tree. -/
structure Occurrence where
  /-- The nodes above it, the nearest first. -/
  above : List Node
  /-- Its index among the children of the nearest of them. -/
  index : Nat
  node : Node

mutual

/-- The nodes of a tree in their places, each before those below it and from left to right. -/
def Tree.occurrencesAt (above : List Node) (index : Nat) : Tree → List Occurrence
  | node root children => ⟨above, index, root⟩ :: occurrencesFrom (root :: above) 0 children

/-- The same for trees next to each other. -/
def Tree.occurrencesFrom (above : List Node) (index : Nat) : List Tree → List Occurrence
  | [] => []
  | t :: ts => occurrencesAt above index t ++ occurrencesFrom above (index + 1) ts

end

theorem Tree.occurrencesAt_eq (t : Tree) (above : List Node) (index : Nat) :
    t.occurrencesAt above index =
      ⟨above, index, t.root⟩ :: occurrencesFrom (t.root :: above) 0 t.children := by
  cases t
  rfl

/-- The places in a child are places next to the other children. -/
theorem Tree.mem_occurrencesFrom {ts : List Tree} {i : Nat} {c : Tree} {o : Occurrence}
    {above : List Node} {index : Nat} (hc : ts[i]? = some c)
    (ho : o ∈ c.occurrencesAt above (index + i)) : o ∈ occurrencesFrom above index ts := by
  induction ts generalizing i index with
  | nil => cases hc
  | cons t ts ih =>
    rw [occurrencesFrom, List.mem_append]
    cases i with
    | zero =>
      cases hc
      exact .inl ho
    | succ i => exact .inr (ih hc (by rwa [Nat.add_right_comm, Nat.add_assoc]))

/-- The nodes of a whole tree in their places. -/
def Tree.occurrences (t : Tree) : List Occurrence := t.occurrencesAt [] 0

namespace Node.Kind

/-- The kinds of the nodes that a declaration belongs to. -/
def isScope (k : Kind) : Bool := k = program || k.opensBlock

/-- Whether an identifier at this index below a node of the kind is a use of its name. -/
def usesChild (k : Kind) (index : Nat) : Bool :=
  match k with
  | assignment => index = 1
  | comparison => index ≠ 1
  | invocation => index = 0
  | .return | mathExpression | invocationArguments => true
  | _ => false

end Node.Kind

namespace Occurrence

variable (o : Occurrence)

/-- The kind of the node right above it. -/
def parentKind? : Option Node.Kind := o.above.head?.map (·.kind)

/-- The nearest scope around it. -/
def scope? : Option Node := o.above.find? (·.kind.isScope)

/-- What it declares its name as. -/
def category? : Option Symbol.Category :=
  if o.node.kind = .function then some .function
  else match o.parentKind? with
    | some .functionParameters => some .parameter
    | some .assignment => if o.index = 0 then some .variable else none
    | _ => none

/-- Its name as it is declared at the number of blocks around it. -/
def symbol (category : Symbol.Category) : Symbol :=
  ⟨o.node.name, o.above.countP (·.kind.opensBlock), category, .node o.node.id⟩

/-- What it declares. -/
def symbol? : Option Symbol := o.category?.map o.symbol

/-- What it declares for a later use with the given nodes above it. The use has to be inside
the scope of the declaration, and not in the assignment that declares the name. -/
def offers? (above : List Node) : Option Symbol :=
  if (∃ scope ∈ o.scope?, scope ∈ above) ∧
      ∀ parent ∈ o.above.head?, parent.kind = .assignment → parent ∉ above then
    o.symbol?
  else none

/-- Whether it is an identifier of which the name is used. -/
def isUse : Bool := o.node.kind = .identifier && o.parentKind?.any (·.usesChild o.index)

end Occurrence

/-! ## What a use stands for -/

/-- The standard functions as symbols. -/
def standardSymbols : List Symbol :=
  standardFunctions.map fun (name, t) => ⟨name, 0, .function, .builtin t⟩

/-- What is in sight below the given nodes, when these places come before: first the standard
functions, then the declarations in their order. -/
def inSight (above : List Node) (before : List Occurrence) : List Symbol :=
  standardSymbols ++ before.filterMap (·.offers? above)

/-- The last of the symbols that has the name. -/
def lastNamed (symbols : List Symbol) (name : String) : Option Symbol :=
  (symbols.filter (·.name = name)).getLast?

/-- A use of a name, and what was found for it. -/
structure LookUp where
  id : Nat
  name : String
  position : Position
  found : Option Symbol

/-- The look-up of the name at a node among the given symbols. -/
def Node.lookUp (n : Node) (symbols : List Symbol) : LookUp :=
  ⟨n.id, n.name, n.position, lastNamed symbols n.name⟩

/-- The look-ups of the uses among places, when those of `before` come first. -/
def resolutionsAfter (before : List Occurrence) : List Occurrence → List LookUp
  | [] => []
  | o :: os =>
    (if o.isUse then [o.node.lookUp (inSight o.above before)] else []) ++
      resolutionsAfter (before ++ [o]) os

/-- All uses in a tree, in the order of the tree, each with what it stands for. -/
def Tree.resolutions (t : Tree) : List LookUp := resolutionsAfter [] t.occurrences

/-! ## What a tree offers to what follows -/

/-- A declaration is not in sight outside of its scope. -/
theorem Occurrence.offers?_of_not_mem {o : Occurrence} {n : Node} {above : List Node}
    (h : o.scope? = some n) (hn : n ∉ above) : o.offers? above = none := by
  unfold offers?
  rw [if_neg]
  rintro ⟨⟨m, hm, inside⟩, -⟩
  cases h.symm.trans hm
  exact hn inside

/-- A declaration is in sight inside of its scope, but for the assignment that it is in. -/
theorem Occurrence.offers?_of_mem {o : Occurrence} {n : Node} {above : List Node}
    (h : o.scope? = some n) (hn : n ∈ above)
    (apart : ∀ parent ∈ o.above.head?, parent.kind = .assignment → parent ∉ above) :
    o.offers? above = o.symbol? := by
  unfold offers?
  rw [if_pos ⟨⟨n, h, hn⟩, apart⟩]

mutual

/-- Nothing in a block is in sight outside of it. -/
theorem Tree.offers_hidden {above : List Node} (t : Tree) (around : List Node) (index : Nat)
    {n : Node} (scope : around.find? (·.kind.isScope) = some n) (hn : n ∉ above)
    (apart : ∀ m ∈ above, m.id ∉ t.ids) :
    (t.occurrencesAt around index).filterMap (·.offers? above) = [] := by
  cases t with
  | node root children =>
    have hidden : Occurrence.offers? ⟨around, index, root⟩ above = none :=
      Occurrence.offers?_of_not_mem scope hn
    rw [occurrencesAt, List.filterMap_cons, hidden]
    dsimp only
    by_cases hk : root.kind.isScope
    · refine offersAll_hidden children (root :: around) 0 (List.find?_cons_of_pos hk) ?_ ?_
      · exact fun h => apart root h (by simp)
      · exact fun m hm h => apart m hm (by simp [h])
    · refine offersAll_hidden children (root :: around) 0 ?_ hn ?_
      · rw [List.find?_cons, Bool.eq_false_iff.mpr hk, scope]
      · exact fun m hm h => apart m hm (by simp [h])

theorem Tree.offersAll_hidden {above : List Node} (ts : List Tree) (around : List Node)
    (index : Nat) {n : Node} (scope : around.find? (·.kind.isScope) = some n) (hn : n ∉ above)
    (apart : ∀ m ∈ above, m.id ∉ idsAll ts) :
    (occurrencesFrom around index ts).filterMap (·.offers? above) = [] := by
  cases ts with
  | nil => rfl
  | cons t ts =>
    rw [occurrencesFrom, List.filterMap_append, t.offers_hidden around index scope hn,
      offersAll_hidden ts around (index + 1) scope hn, List.append_nil]
    · exact fun m hm h => apart m hm (by simp [h])
    · exact fun m hm h => apart m hm (by simp [h])

end

section

variable {parent : Node} {around above : List Node} {n : Node}

/-- Of a function, only its own name is in sight after it; of any other tree, what it leaves
declared. -/
def OffersInside (t : Tree) : Prop := t.root.kind ≠ .program →
  ∀ (around above : List Node) (n : Node), around.find? (·.kind.isScope) = some n → n ∈ above →
    (∀ m ∈ above, m.id ∉ t.ids) →
    (Tree.occurrencesFrom (t.root :: around) 0 t.children).filterMap (·.offers? above) =
      if t.root.kind = .function then []
      else declared (around.countP (·.kind.opensBlock)) t

/-- What a child itself declares for a use that is inside the scope around it. -/
theorem Occurrence.offers?_child {root : Node} (index : Nat)
    (top : root.kind = .function → parent.kind = .program)
    (scope : (parent :: around).find? (·.kind.isScope) = some n) (hn : n ∈ above)
    (hp : parent.kind = .assignment → parent ∈ above) :
    offers? ⟨parent :: around, index, root⟩ above =
      if root.kind = .function then some (symbol ⟨parent :: around, index, root⟩ .function)
      else if parent.kind = .functionParameters then
        some (symbol ⟨parent :: around, index, root⟩ .parameter)
      else none := by
  by_cases ha : parent.kind = .assignment
  · have hk : root.kind ≠ .function := fun hk => by cases ha.symm.trans (top hk)
    rw [if_neg hk, if_neg (by simp [ha]), offers?, if_neg]
    exact fun inSight => inSight.2 parent rfl ha (hp ha)
  · have own := offers?_of_mem (o := ⟨parent :: around, index, root⟩) scope hn (by simp [ha])
    rw [own, symbol?, category?, parentKind?]
    by_cases hk : root.kind = .function
    · rw [if_pos hk, if_pos hk]
      rfl
    · rw [if_neg hk, if_neg hk]
      by_cases hf : parent.kind = .functionParameters
      · simp [hf]
      · simp [hf, ha]

/-- What a child in its place offers is what it leaves declared. -/
theorem OffersInside.child {c : Tree} (h : OffersInside c) (index : Nat)
    (suits : Suits parent.kind index c) (hl : c.LaidOut)
    (scope : (parent :: around).find? (·.kind.isScope) = some n) (hn : n ∈ above)
    (apart : ∀ m ∈ above, m.id ∉ c.ids) (hp : parent.kind = .assignment → parent ∈ above) :
    (c.occurrencesAt (parent :: around) index).filterMap (·.offers? above) =
      (Place.of parent.kind index).declared ((parent :: around).countP (·.kind.opensBlock)) c.root
        (declared ((parent :: around).countP (·.kind.opensBlock)) c) := by
  have inner := h suits.inner (parent :: around) above n scope hn apart
  have own := Occurrence.offers?_child index suits.function scope hn hp
  rw [Tree.occurrencesAt_eq, List.filterMap_cons, own, inner]
  by_cases hk : c.root.kind = .function
  · rw [suits.function hk]
    simp [hk, Place.of, Place.declared, Typing.declared_function hk, Occurrence.symbol]
  · rw [if_neg hk, if_neg hk]
    by_cases hf : parent.kind = .functionParameters
    · rw [if_pos hf, hf]
      rfl
    · rw [if_neg hf, declared_of_place]
      · exact fun place => hf (parameter_of_place place)
      · exact fun place => declared_leaf hl (suits.leaf (by simp [place]))

theorem OffersInside.all {ts : List Tree} {index : Nat} (h : ∀ c ∈ ts, OffersInside c)
    (suits : ∀ i c, ts[i]? = some c → Suits parent.kind (index + i) c) (hl : ∀ c ∈ ts, c.LaidOut)
    (scope : (parent :: around).find? (·.kind.isScope) = some n) (hn : n ∈ above)
    (apart : ∀ m ∈ above, m.id ∉ Tree.idsAll ts) (hp : parent.kind = .assignment → parent ∈ above) :
    (Tree.occurrencesFrom (parent :: around) index ts).filterMap (·.offers? above) =
      declaredAll ((parent :: around).countP (·.kind.opensBlock))
        (fun i => Place.of parent.kind (index + i)) ts := by
  induction ts generalizing index with
  | nil => rfl
  | cons c cs ih =>
    rw [List.forall_mem_cons] at h hl
    have first := h.1.child index (suits 0 c rfl) hl.1 scope hn
      (fun m hm hi => apart m hm (by simp [hi])) hp
    have shift : (fun i => Place.of parent.kind (index + (i + 1))) =
        fun i => Place.of parent.kind (index + 1 + i) := by
      funext i
      rw [Nat.add_right_comm, Nat.add_assoc]
    rw [Tree.occurrencesFrom, List.filterMap_append, first, declaredAll, shift, ih h.2 _ hl.2]
    · rfl
    · exact fun m hm hi => apart m hm (by simp [hi])
    · intro i c' hc
      rw [Nat.add_right_comm, Nat.add_assoc]
      exact suits (i + 1) c' hc

/-- Behind an assignment, the name that it declares is in sight. -/
theorem OffersInside.assignment {root : Node} {target value : Tree} (h : OffersInside value)
    (hl : (Tree.node root [target, value]).LaidOut) (hk : root.kind = .assignment)
    (scope : around.find? (·.kind.isScope) = some n) (hn : n ∈ above)
    (apart : ∀ m ∈ above, m.id ∉ (Tree.node root [target, value]).ids) :
    (Tree.occurrencesFrom (root :: around) 0 [target, value]).filterMap (·.offers? above) =
      declared (around.countP (·.kind.opensBlock)) (.node root [target, value]) := by
  obtain ⟨_, _, shape, ht, hv⟩ := hl.assignment hk
  cases shape
  have outside : root ∉ above := fun h => apart root h (by simp)
  have scope' : (root :: around).find? (·.kind.isScope) = some n := by
    rw [List.find?_cons, ← scope]
    simp [Node.Kind.isScope, hk, Node.Kind.opensBlock]
  have targetOffers := Occurrence.offers?_of_mem (o := ⟨root :: around, 0, target.root⟩) scope' hn
    (by simp [outside])
  have valueOffers : Occurrence.offers? ⟨root :: around, 1, value.root⟩ above = none := by
    have notFunction : value.root.kind ≠ .function := fun hf => by
      rw [hf] at hv
      cases hv
    have nothing : Occurrence.symbol? ⟨root :: around, 1, value.root⟩ = none := by
      simp [Occurrence.symbol?, Occurrence.category?, notFunction, Occurrence.parentKind?, hk]
    rw [Occurrence.offers?, nothing, ite_self]
  have valueInside := h (hl.suits (i := 1) rfl).inner (root :: around) above n scope' hn
    (fun m hm hi => apart m hm (by simp [hi]))
  have valueLeaves : ∀ depth, declared depth value = [] := fun depth =>
    Typing.declared_expression (hl.child value (by simp)) hv
  have leaf : target.children = [] :=
    Tree.children_of_isLeaf (hl.child target (by simp)) (by rw [ht]; rfl)
  simp only [Tree.occurrencesFrom, Tree.occurrencesAt_eq, leaf, List.append_nil,
    List.cons_append, List.nil_append, List.filterMap_cons, targetOffers, valueOffers, valueInside,
    valueLeaves, ite_self]
  simp [declared, declaredOnEntry, declaredAll, hk, Node.Kind.opensBlock, Place.of, Place.declared,
    valueLeaves, Occurrence.symbol?, Occurrence.symbol, Occurrence.category?,
    Occurrence.parentKind?, ht]

theorem offersInside {t : Tree} (hl : t.LaidOut) : OffersInside t := by
  induction t using Tree.ofChildren with
  | step root children ih =>
    have on : ∀ c ∈ children, OffersInside c := fun c hc => ih c hc (hl.child c hc)
    intro hr around above n scope hn apart
    change root.kind ≠ .program at hr
    change (Tree.occurrencesFrom (root :: around) 0 children).filterMap _ =
      if root.kind = .function then [] else _
    by_cases hb : root.kind.opensBlock
    · have around_block : (root :: around).find? (·.kind.isScope) = some root :=
        List.find?_cons_of_pos (by simp [Node.Kind.isScope, hb])
      rw [Tree.offersAll_hidden children (root :: around) 0 around_block]
      · by_cases hk : root.kind = .function
        · rw [if_pos hk]
        · rw [if_neg hk, declared, if_pos hb, List.append_nil]
          unfold declaredOnEntry
          split <;> simp_all [Node.Kind.opensBlock]
      · exact fun h => apart root h (by simp)
      · exact fun m hm hi => apart m hm (by simp [hi])
    have hk : root.kind ≠ .function := fun hk => hb (by rw [hk]; rfl)
    have scope' : (root :: around).find? (·.kind.isScope) = some n := by
      rw [List.find?_cons, ← scope]
      simp [Node.Kind.isScope, hb, hr]
    have depth : (root :: around).countP (·.kind.opensBlock) =
        around.countP (·.kind.opensBlock) := List.countP_cons_of_neg hb
    rw [if_neg hk]
    by_cases ha : root.kind = .assignment
    · obtain ⟨target, value, rfl, -, -⟩ := hl.assignment ha
      exact (on value (by simp)).assignment hl ha scope hn apart
    · rw [OffersInside.all on _ hl.child scope' hn _ (fun h => absurd h ha), depth]
      · rw [declared, if_neg hb]
        unfold declaredOnEntry
        split <;> simp_all
      · intro i c hc
        rw [Nat.zero_add]
        exact hl.suits hc
      · exact fun m hm hi => apart m hm (by simp [hi])

end

/-! ## Look-ups along a walk -/

/-- The look-up of a node that names something only if it is an identifier. -/
def Node.lookUpIfNamed (n : Node) (symbols : List Symbol) : List LookUp :=
  if n.kind = .identifier then [n.lookUp symbols] else []

/-- What a node declares for the trees below it. -/
def declaredBelow (depth : Nat) (root : Node) : List Symbol :=
  if root.kind = .function then [⟨root.name, depth, .function, .node root.id⟩] else []

mutual

/-- The look-ups of the uses below the root of a tree, when these symbols are known before it. -/
def Tree.looks (known : List Symbol) (depth : Nat) : Tree → List LookUp
  | node root children =>
    looksAll root.kind.usesChild (Place.of root.kind) (known ++ declaredBelow depth root)
      (if root.kind.opensBlock then depth + 1 else depth) children

/-- The look-ups in trees next to each other, where each may be looked up itself, by its index. -/
def Tree.looksAll (asks : Nat → Bool) (place : Nat → Place) (known : List Symbol) (depth : Nat) :
    List Tree → List LookUp
  | [] => []
  | child :: rest =>
    (if asks 0 then child.root.lookUpIfNamed known else []) ++
      looks known depth child ++
      looksAll (fun i => asks (i + 1)) (fun i => place (i + 1))
        (known ++ (place 0).declared depth child.root (declared depth child)) depth rest

end

mutual

/-- What is above a node of a tree is around the tree or in it. -/
theorem Tree.mem_above (t : Tree) (around : List Node) (index : Nat) :
    ∀ o ∈ t.occurrencesAt around index, ∀ m ∈ o.above, m ∈ around ∨ m.id ∈ t.ids := by
  cases t with
  | node root children =>
    intro o ho m hm
    rcases List.mem_cons.mp ho with rfl | ho
    · exact Or.inl hm
    · rcases mem_aboveAll children (root :: around) 0 o ho m hm with h | h
      · rcases List.mem_cons.mp h with rfl | h
        · exact Or.inr (by simp)
        · exact Or.inl h
      · exact Or.inr (by simp [h])

theorem Tree.mem_aboveAll (ts : List Tree) (around : List Node) (index : Nat) :
    ∀ o ∈ occurrencesFrom around index ts, ∀ m ∈ o.above, m ∈ around ∨ m.id ∈ idsAll ts := by
  cases ts with
  | nil => exact fun o ho => by cases ho
  | cons t ts =>
    intro o ho m hm
    rcases List.mem_append.mp ho with ho | ho
    · exact (mem_above t around index o ho m hm).imp_right fun h => by simp [h]
    · exact (mem_aboveAll ts around (index + 1) o ho m hm).imp_right fun h => by simp [h]

end

theorem resolutionsAfter_append (before xs ys : List Occurrence) :
    resolutionsAfter before (xs ++ ys) =
      resolutionsAfter before xs ++ resolutionsAfter (before ++ xs) ys := by
  induction xs generalizing before with
  | nil => simp [resolutionsAfter]
  | cons x xs ih => simp [resolutionsAfter, ih]

/-- Nodes that come before others are not below them. -/
theorem Occurrence.offers?_cons {o : Occurrence} {root : Node} {above : List Node}
    (h : ∀ m ∈ o.above, m.id ≠ root.id) : o.offers? (root :: above) = o.offers? above := by
  have other : ∀ m ∈ o.above, m ≠ root := fun m hm hr => h m hm (by rw [hr])
  have scope : (∃ m ∈ o.scope?, m ∈ root :: above) ↔ ∃ m ∈ o.scope?, m ∈ above := by
    refine exists_congr fun m => and_congr_right fun hm => ?_
    rw [List.mem_cons, or_iff_right (other m (List.mem_of_find?_eq_some hm))]
  have parent : (∀ m ∈ o.above.head?, m.kind = .assignment → m ∉ root :: above) ↔
      ∀ m ∈ o.above.head?, m.kind = .assignment → m ∉ above := by
    refine forall_congr' fun m => imp_congr_right fun hm => ?_
    rw [List.mem_cons, or_iff_right (other m (List.mem_of_mem_head? hm))]
  simp only [offers?, scope, parent]

/-- What is in sight below a node is what is in sight at it, and what it declares itself. -/
theorem inSight_below {root : Node} {around : List Node} {before : List Occurrence} {index : Nat}
    (earlier : ∀ o ∈ before, ∀ m ∈ o.above, m.id ≠ root.id)
    (own : (Occurrence.offers? ⟨around, index, root⟩ (root :: around)).toList =
      declaredBelow (around.countP (·.kind.opensBlock)) root) :
    inSight (root :: around) (before ++ [⟨around, index, root⟩]) =
      inSight around before ++ declaredBelow (around.countP (·.kind.opensBlock)) root := by
  have same : before.filterMap (·.offers? (root :: around)) = before.filterMap (·.offers? around) :=
    List.filterMap_congr fun o ho => Occurrence.offers?_cons (earlier o ho)
  have last : List.filterMap (fun o : Occurrence => o.offers? (root :: around))
      [⟨around, index, root⟩] =
      (Occurrence.offers? ⟨around, index, root⟩ (root :: around)).toList := by
    rw [List.filterMap_eq_flatMap_toList, List.flatMap_singleton]
  rw [inSight, inSight, List.filterMap_append, same, List.append_assoc, last, own]

/-- The look-ups along a walk over a tree are those of its uses in their places. -/
def LooksInPlace (t : Tree) : Prop :=
  ∀ (around : List Node) (index : Nat) (before : List Occurrence),
    ((t.root :: around).find? (·.kind.isScope)).isSome →
    (t.children ≠ [] → (Occurrence.offers? ⟨around, index, t.root⟩ (t.root :: around)).toList =
      declaredBelow (around.countP (·.kind.opensBlock)) t.root) →
    (∀ m ∈ around, m.id ∉ t.ids) → (∀ o ∈ before, ∀ m ∈ o.above, m.id ∉ t.ids) →
    t.looks (inSight around before) (around.countP (·.kind.opensBlock)) =
      resolutionsAfter (before ++ [⟨around, index, t.root⟩])
        (Tree.occurrencesFrom (t.root :: around) 0 t.children)

section

variable {parent : Node} {around : List Node} {c : Tree} {index : Nat}

/-- Behind a child in its place, what it leaves declared is in sight as well. -/
theorem inSight_after (suits : Suits parent.kind index c) (hl : c.LaidOut)
    (scope : ((parent :: around).find? (·.kind.isScope)).isSome)
    (apart : ∀ m ∈ parent :: around, m.id ∉ c.ids) (before : List Occurrence) :
    inSight (parent :: around) (before ++ c.occurrencesAt (parent :: around) index) =
      inSight (parent :: around) before ++
        (Place.of parent.kind index).declared ((parent :: around).countP (·.kind.opensBlock)) c.root
          (declared ((parent :: around).countP (·.kind.opensBlock)) c) := by
  obtain ⟨n, hn⟩ := Option.isSome_iff_exists.mp scope
  have child := (offersInside hl).child index suits hl hn (List.mem_of_find?_eq_some hn) apart
    fun _ => List.mem_cons_self
  rw [inSight, inSight, List.filterMap_append, child, List.append_assoc]

/-- A node below another one, with children of its own, declares nothing for them unless it is a
function. -/
theorem Occurrence.offers?_inside (suits : Suits parent.kind index c) (hl : c.LaidOut)
    (scope : ((parent :: around).find? (·.kind.isScope)).isSome) (hc : c.children ≠ []) :
    (offers? ⟨parent :: around, index, c.root⟩ (c.root :: parent :: around)).toList =
      declaredBelow ((parent :: around).countP (·.kind.opensBlock)) c.root := by
  obtain ⟨n, hn⟩ := Option.isSome_iff_exists.mp scope
  have noParameter : parent.kind ≠ .functionParameters := fun hf =>
    hc (Tree.children_of_isLeaf hl (suits.leaf (by simp [hf, Place.of])))
  have own := offers?_child index suits.function hn
    (List.mem_cons_of_mem c.root (List.mem_of_find?_eq_some hn))
    fun _ => List.mem_cons_of_mem _ List.mem_cons_self
  rw [own, if_neg noParameter, declaredBelow]
  split <;> rfl

end

theorem LooksInPlace.all {parent : Node} {around : List Node} {ts : List Tree} {index : Nat}
    {before : List Occurrence} (h : ∀ c ∈ ts, LooksInPlace c)
    (suits : ∀ i c, ts[i]? = some c → Suits parent.kind (index + i) c) (hl : ∀ c ∈ ts, c.LaidOut)
    (scope : ((parent :: around).find? (·.kind.isScope)).isSome) (nodup : (Tree.idsAll ts).Nodup)
    (apart : ∀ m ∈ parent :: around, m.id ∉ Tree.idsAll ts)
    (earlier : ∀ o ∈ before, ∀ m ∈ o.above, m.id ∉ Tree.idsAll ts) :
    Tree.looksAll (fun i => parent.kind.usesChild (index + i))
        (fun i => Place.of parent.kind (index + i)) (inSight (parent :: around) before)
        ((parent :: around).countP (·.kind.opensBlock)) ts =
      resolutionsAfter before (Tree.occurrencesFrom (parent :: around) index ts) := by
  induction ts generalizing index before with
  | nil => rfl
  | cons c cs ih =>
    rw [List.forall_mem_cons] at h hl
    rw [Tree.idsAll_cons] at nodup apart earlier
    obtain ⟨-, nodupRest, disjoint⟩ := List.nodup_append.mp nodup
    have suitsFirst : Suits parent.kind index c := suits 0 c rfl
    have apartFirst : ∀ m ∈ parent :: around, m.id ∉ c.ids := fun m hm hi =>
      apart m hm (List.mem_append_left _ hi)
    have scopeFirst : ((c.root :: parent :: around).find? (·.kind.isScope)).isSome := by
      rw [List.find?_cons]
      split
      · rfl
      · exact scope
    have first := h.1 (parent :: around) index before scopeFirst
      (Occurrence.offers?_inside suitsFirst hl.1 scope) apartFirst
      (fun o ho m hm hi => earlier o ho m hm (List.mem_append_left _ hi))
    have shift {α : Type} (f : Nat → α) :
        (fun i => f (index + (i + 1))) = fun i => f (index + 1 + i) := by
      funext i
      rw [Nat.add_right_comm, Nat.add_assoc]
    rw [Tree.looksAll, Tree.occurrencesFrom, resolutionsAfter_append, shift parent.kind.usesChild,
      shift (Place.of parent.kind), Nat.add_zero, ← inSight_after suitsFirst hl.1 scope apartFirst,
      ih h.2 _ hl.2 nodupRest, Tree.occurrencesAt_eq, resolutionsAfter, first]
    · by_cases hk : c.root.kind = .identifier <;>
        simp [Occurrence.isUse, Occurrence.parentKind?, Node.lookUpIfNamed, hk]
    · exact fun m hm hi => apart m hm (List.mem_append_right _ hi)
    · intro o ho m hm hi
      rcases List.mem_append.mp ho with ho | ho
      · exact earlier o ho m hm (List.mem_append_right _ hi)
      · rcases c.mem_above _ _ o ho m hm with hm | hm
        · exact apart m hm (List.mem_append_right _ hi)
        · exact disjoint _ hm _ hi rfl
    · intro i c' hc
      rw [Nat.add_right_comm, Nat.add_assoc]
      exact suits (i + 1) c' hc

theorem looksInPlace {t : Tree} (hl : t.LaidOut) (nodup : t.ids.Nodup) : LooksInPlace t := by
  induction t using Tree.ofChildren with
  | step root children ih =>
    intro around index before scope own apart earlier
    rw [Tree.ids_node] at nodup
    obtain ⟨rootApart, inner⟩ := List.nodup_cons.mp nodup
    have on : ∀ c ∈ children, LooksInPlace c := fun c hc =>
      ih c hc (hl.child c hc) ((List.nodup_flatMap.mp inner).1 c hc)
    change ((root :: around).find? _).isSome at scope
    by_cases hc : children = []
    · subst hc
      rfl
    have below := inSight_below (fun o ho m hm (he : m.id = root.id) =>
      earlier o ho m hm (by simp [he])) (own hc)
    have depth : (root :: around).countP (·.kind.opensBlock) =
        if root.kind.opensBlock then around.countP (·.kind.opensBlock) + 1
        else around.countP (·.kind.opensBlock) := by
      rw [List.countP_cons]
      split <;> rfl
    change Tree.looks _ _ _ = resolutionsAfter (before ++ [⟨around, index, root⟩])
      (Tree.occurrencesFrom (root :: around) 0 children)
    refine Eq.trans ?_ (LooksInPlace.all on (fun i c hc => ?_) hl.child scope inner ?_ ?_)
    · rw [Tree.looks, below, depth]
      simp only [Nat.zero_add]
    · rw [Nat.zero_add]
      exact hl.suits hc
    · intro m hm hi
      rcases List.mem_cons.mp hm with rfl | hm
      · exact rootApart hi
      · exact apart m hm (by simp [hi])
    · intro o ho m hm hi
      rcases List.mem_append.mp ho with ho | ho
      · exact earlier o ho m hm (by simp [hi])
      · cases List.mem_singleton.mp ho
        exact apart m hm (by simp [hi])

/-- The look-ups along a walk over a whole tree are the resolutions of its uses. -/
theorem Tree.looks_eq_resolutions {t : Tree} (hl : t.LaidOut) (nodup : t.ids.Nodup)
    (hk : t.root.kind = .program) : t.looks standardSymbols 0 = t.resolutions := by
  have scope : ([t.root].find? (·.kind.isScope)).isSome := by simp [hk, Node.Kind.isScope]
  have nothing : Occurrence.offers? ⟨[], 0, t.root⟩ [t.root] = none := by
    simp [Occurrence.offers?, Occurrence.scope?]
  have walk := looksInPlace hl nodup [] 0 [] scope (fun _ => by simp [nothing, declaredBelow, hk])
    (by simp) (by simp)
  have known : inSight [] [] = standardSymbols := by simp [inSight]
  rw [known] at walk
  rw [Tree.resolutions, Tree.occurrences, Tree.occurrencesAt_eq, resolutionsAfter]
  simpa [Occurrence.isUse, hk] using walk

/-- In its own assignment a name stands for what it stood for before. -/
example :
    let leaf (text : String) : Leaf := ⟨text, .start⟩
    let outer : Assignment := ⟨leaf "x", .value (.literal .integer (leaf "1"))⟩
    let inner : Assignment := ⟨leaf "x", .math ⟨.start, .identifier (leaf "x"), []⟩⟩
    let program : Program := ⟨[outer], [], ⟨.start, .last (.assignment inner)⟩⟩
    program.tree.resolutions.map (·.found) = [some ⟨"x", 0, .variable, .node 0⟩] := by
  decide

end Mamuth
