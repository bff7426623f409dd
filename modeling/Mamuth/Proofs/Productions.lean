-- Each construct of the grammar is read as its production says, and the program that is
-- read has the tree of the derivation. A list of tokens is therefore read exactly where it
-- has a derivation, and it has no other.
import Mamuth.Proofs.Reading

namespace Mamuth

namespace Grammar

open Reader

variable {n : Nat} {next : List Terminal}

/-! ## Values -/

theorem looks_value : Looks seesValue
    [.kind .identifier, .kind .integer, .kind .float, .kind .boolean, .kind .text] := by
  intro ts
  unfold seesValue
  simp only [Reader.bind_of_ok (looks_sees _ ts)]
  cases ts with
  | nil => rfl
  | cons t ts =>
    simp only [List.head?_cons, Option.any_some, List.any_cons, List.any_nil, Bool.or_false,
      ← Bool.or_assoc]
    rfl

theorem reads_literal : Reads n (do
      if ← sees (.kind .integer) then return Value.literal .integer (← leaf .integer)
      else if ← sees (.kind .float) then return .literal .float (← leaf .float)
      else if ← sees (.kind .boolean) then return .literal .boolean (← leaf .boolean)
      else if ← sees (.kind .text) then return .literal .text (← leaf .text)
      else stuck (.construct .value))
    (.construct .literal) next fun v d => d.Stands v.leaf.position [v.tree] := by
  apply Reads.construct
  apply Reads.recast .rotate .unrotate Derivation.yield_rotate Derivation.yield_unrotate
  refine Reads.choose (looks_sees _) (by decide) ?_ rfl ?_ ?_
  · rw [Phrase.opens_of_not_nullable rfl]
    decide
  · exact (reads_leaf rfl).map fun l d h => ⟨h.start, h.trees⟩
  refine Reads.choose (looks_sees _) (by decide) ?_ rfl ?_ ?_
  · rw [Phrase.opens_of_not_nullable rfl]
    decide
  · exact (reads_leaf rfl).map fun l d h => ⟨h.start, h.trees⟩
  refine Reads.choose (looks_sees _) (by decide) ?_ rfl ?_ ?_
  · rw [Phrase.opens_of_not_nullable rfl]
    decide
  · exact (reads_leaf rfl).map fun l d h => ⟨h.start, h.trees⟩
  apply Reads.orStuck (looks_sees _) (by decide) rfl
  exact (reads_leaf rfl).map fun l d h => ⟨h.start, h.trees⟩

theorem reads_value : Reads n value (.construct .value) next fun v d =>
    d.Stands v.leaf.position [v.tree] := by
  apply Reads.construct
  refine Reads.choose (looks_sees _) (by decide) ?_ rfl ?_ ?_
  · rw [Phrase.opens_of_not_nullable rfl]
    decide
  · exact (reads_leaf rfl).map fun l d h => ⟨h.start, h.trees⟩
  · apply reads_literal.mono (Nat.le_refl n) (List.Subset.refl _)
    intro v d h
    exact ⟨h.start, h.trees⟩

/-! ## Lists -/

theorem reads_commaSeparated {item : Reader α} {a : Phrase} {position : α → Position}
    {tree : α → Tree} (hf : next.all fun y => (Terminal.word ",").apart y)
    (h : Reads n item a (.word "," :: next) fun x d => d.Stands (position x) [tree x]) :
    Reads n (commaSeparated item) (.listed a) next fun xs d =>
      ∃ x xs', xs = x :: xs' ∧ d.Stands (position x) (xs.map tree) := by
  apply Reads.bind h
  intro x d hd
  have item : Reads n (do let _ ← word ","; item) (.seq (.word ",") a) (.word "," :: next)
      fun x d => d.trees = [tree x] := by
    apply Reads.bind (reads_word _)
    intro _ d hd
    apply h.mono (Nat.le_refl n) (List.Subset.refl _)
    intro x e he
    rw [Derivation.trees, hd.trees, he.trees]
    rfl
  refine (Reads.many (looks_sees _) rfl ?_ rfl item).map fun xs e he => ?_
  · simpa using hf
  refine ⟨x, xs, rfl, ?_, ?_⟩
  · exact Derivation.start?_seq hd.start e
  · rw [Derivation.trees, hd.trees, he.trees_map fun _ _ h => h]
    rfl

/-- The node of a construct without a name. -/
theorem trees_construct {m : Nonterminal} {kind : Node.Kind} {d : Derivation m.production}
    {position : Position} {children : List Tree} (hk : m.node? = some kind)
    (hc : m.content children = none) (h : d.Stands position children) :
    (Derivation.construct d).Stands position [.inner kind position children] := by
  refine ⟨h.start, ?_⟩
  rw [Derivation.trees, hk, h.trees, h.start, hc]
  rfl

/-- The node of a construct with the name of its first child. -/
theorem trees_named {m : Nonterminal} {kind : Node.Kind} {d : Derivation m.production}
    {position : Position} {name : Leaf} {children : List Tree} (hk : m.node? = some kind)
    (hm : m = .function ∨ m = .invocation)
    (h : d.Stands position (name.tree .identifier :: children)) :
    (Derivation.construct d).Stands position
      [.named kind name position (name.tree .identifier :: children)] := by
  refine ⟨h.start, ?_⟩
  rw [Derivation.trees, hk, h.trees, h.start, Nonterminal.content, if_pos hm]
  rfl

theorem reads_group {r : Reader (List α)} {m : Nonterminal} {kind : Node.Kind}
    {position : α → Position} {tree : α → Tree} (hk : m.node? = some kind)
    (hc : ∀ ts, m.content ts = none) (hp : ∀ x, (tree x).root.position = position x)
    (h : Reads n r m.production next fun xs d =>
      ∃ x xs', xs = x :: xs' ∧ d.Stands (position x) (xs.map tree)) :
    Reads n r (.construct m) next fun xs d => d.trees = Tree.group kind (xs.map tree) := by
  refine Reads.construct (h.mono (Nat.le_refl n) (List.Subset.refl _) ?_)
  rintro _ d ⟨x, xs, rfl, hd⟩
  rw [(trees_construct hk (hc _) hd).trees, List.map_cons, Tree.group, hp]

theorem itemsBeforeBracket_cons (item : Reader α) (recognizes : Recognizer) (t : Token)
    (ts : List Token) :
    itemsBeforeBracket item recognizes (t :: ts) =
      (do if ← sees (.word ")") then return [] else commaSeparated item) recognizes (t :: ts) := by
  have counted : left recognizes (t :: ts) = .ok (ts.length + 1, t :: ts) := rfl
  rw [itemsBeforeBracket, Reader.bind_of_ok counted, if_neg (Nat.succ_ne_zero _)]

theorem reads_itemsBeforeBracket {item : Reader α} {m : Nonterminal}
    {Fits : List α → Derivation (.maybe (.construct m)) → Prop}
    (apart : m.starts.all fun y => (Terminal.word ")").apart y)
    (h : Reads n (commaSeparated item) (.construct m) [.word ")"] fun xs d =>
      Fits xs (.present d))
    (h' : Fits [] .absent) :
    Reads n (itemsBeforeBracket item) (.maybe (.construct m)) [.word ")"] Fits := by
  have looks := looks_sees (.word ")")
  refine ⟨fun {ts xs rest} hr => ?_, fun d rest hd hp hs => ?_, ⟨[], .absent, h'⟩,
    fun {ts expected rest} hr => ?_⟩
  · obtain ⟨k, mid, hl, hr⟩ := Reader.bind_eq_ok hr
    cases hl
    split at hr
    · cases hr
      exact ⟨.absent, rfl, h'⟩
    · rcases looks.sound hr with hr | hr
      · cases hr
        exact ⟨.absent, rfl, h'⟩
      · obtain ⟨d, hd, hx⟩ := h.sound hr
        exact ⟨.present d, hd, hx⟩
  · cases d with
    | absent =>
      cases rest with
      | nil => exact ⟨[], rfl⟩
      | cons t rest =>
        have seen := looks.yes hp hs (by simp) (by decide)
        refine ⟨[], (itemsBeforeBracket_cons item _ t rest).trans ?_⟩
        exact Reader.bind_of_ok seen _
    | present d =>
      rw [Derivation.yield] at hd hp ⊢
      have hne := d.yield_ne_nil rfl
      have starts := d.startsIn_yield.append hne rest
      obtain ⟨t, ts, ht⟩ := List.exists_cons_of_ne_nil hne
      obtain ⟨xs, hxs⟩ := h.complete d hd hp hs
      have seen := looks.no hp starts (by simpa [Phrase.starts] using apart)
      rw [ht, List.cons_append] at seen hxs ⊢
      refine ⟨xs, (itemsBeforeBracket_cons item _ t _).trans ?_⟩
      rw [Reader.bind_of_ok seen]
      exact hxs
  · rcases Reader.bind_eq_error hr with hl | ⟨k, mid, hl, hr⟩
    · cases hl
    · cases hl
      split at hr
      · cases hr
      · rcases looks.stuck hr with hr | hr
        · cases hr
        · obtain ⟨taken, ht, begins⟩ := h.begins hr
          exact ⟨taken, ht, begins.map .present fun _ => rfl⟩

theorem reads_arguments : Reads n (itemsBeforeBracket value) (.maybe (.construct .arguments))
    [.word ")"] fun vs d => d.trees = Tree.group .invocationArguments (vs.map Value.tree) := by
  refine reads_itemsBeforeBracket (by decide) ?_ rfl
  refine reads_group rfl (fun _ => rfl) ?_ (reads_commaSeparated (by decide) reads_value)
  rintro (_ | _) <;> rfl

theorem reads_parameters : Reads n (itemsBeforeBracket (leaf .identifier))
    (.maybe (.construct .parameters)) [.word ")"] fun ls d =>
      d.trees = Tree.group .functionParameters (ls.map (·.tree .identifier)) := by
  refine reads_itemsBeforeBracket (by decide) ?_ rfl
  exact reads_group rfl (fun _ => rfl) (fun _ => rfl)
    (reads_commaSeparated (by decide) (reads_leaf rfl))

/-! ## Expressions -/

theorem reads_math : Reads n math (.construct .math) next fun m d =>
    d.Stands m.position [m.tree] := by
  have item : Reads n (do return (← leaf .operator, ← value))
      (.seq (.kind .operator) (.construct .value)) [.kind .operator, .word "#"] fun x d =>
        d.trees = [x.1.tree .operator, x.2.tree] := by
    refine Reads.bind (reads_leaf rfl) fun o d hd => reads_value.map fun v e he => ?_
    simp [hd.trees, he.trees]
  apply Reads.construct
  apply Reads.bind (reads_word _)
  intro position d hd
  apply Reads.bind reads_value
  intro first d₁ h₁
  refine Reads.bind (Reads.many (looks_sees _) (by decide) ?_ rfl item) fun rest d₂ h₂ => ?_
  · rw [Phrase.opens_of_not_nullable rfl]
    decide
  apply (reads_word _).map
  intro _ d₃ h₃
  refine trees_construct rfl rfl ⟨Derivation.start?_seq hd.start _, ?_⟩
  simp [hd.trees, h₁.trees, h₂.trees fun _ _ h => h, h₃.trees]

theorem reads_invocation : Reads n invocation (.construct .invocation) next fun i d =>
    d.Stands i.position [i.tree] := by
  apply Reads.construct
  unfold invocation bracketed
  simp only [bind_assoc, pure_bind]
  apply Reads.bind (reads_word _)
  intro position d hd
  apply Reads.bind (reads_leaf rfl)
  intro callee d₁ h₁
  apply Reads.bind (reads_word _)
  intro _ d₂ h₂
  apply Reads.bind reads_arguments
  intro arguments d₃ h₃
  apply (reads_word _).map
  intro _ d₄ h₄
  refine trees_named rfl (Or.inr rfl) ⟨Derivation.start?_seq hd.start _, ?_⟩
  simp [hd.trees, h₁.trees, h₂.trees, h₃, h₄.trees]

theorem reads_expression : Reads n expression? (.maybe .expression) [.word "."]
    (Optional fun e d => d.Stands e.position [e.tree]) := by
  apply Reads.recast .hoist .lower Derivation.yield_hoist Derivation.yield_lower
  refine Reads.choose (looks_sees _) (by decide) (by decide) rfl ?_ ?_
  · exact reads_math.map fun m d h => .present ⟨h.start, h.trees⟩
  refine Reads.choose (looks_sees _) (by decide) (by decide +kernel) rfl ?_ ?_
  · exact reads_invocation.map fun i d h => .present ⟨h.start, h.trees⟩
  refine Reads.optional looks_value (by decide) (by decide) rfl ?_ .absent
  exact reads_value.map fun v d h => .present ⟨h.start, h.trees⟩

theorem reads_assignment : Reads n assignment (.construct .assignment) next fun a d =>
    d.Stands a.target.position [a.tree] := by
  apply Reads.construct
  apply Reads.bind (reads_leaf rfl)
  intro target d hd
  apply Reads.bind (reads_word _)
  intro _ d₁ h₁
  have expression : ∃ (e : Expression) (d : Derivation .expression),
      d.Stands e.position [e.tree] := by
    obtain ⟨v, d, h⟩ := (reads_value : Reads n value _ next _).inhabited
    exact ⟨.value v, .other (.other d), h.start, h.trees⟩
  refine Reads.required rfl expression reads_expression (fun value d₂ h₂ => ?_) rfl
  apply (reads_word _).map
  intro _ d₃ h₃
  refine trees_construct rfl rfl ⟨Derivation.start?_seq hd.start _, ?_⟩
  simp [hd.trees, h₁.trees, h₂.trees, h₃.trees]

/-! ## Conditions -/

theorem reads_comparison : Reads n comparison (.construct .comparison) next fun c d =>
    d.Stands c.position [c.tree] := by
  apply Reads.construct
  apply Reads.bind reads_value
  intro left d hd
  apply Reads.bind (reads_leaf rfl)
  intro sign d₁ h₁
  apply reads_value.map
  intro right d₂ h₂
  refine trees_construct rfl rfl ⟨Derivation.start?_seq hd.start _, ?_⟩
  simp [hd.trees, h₁.trees, h₂.trees]

theorem reads_condition : Reads n condition (.construct .condition) [.word ")"] fun c d =>
    d.Stands c.position [c.tree] := by
  apply Reads.construct
  apply Reads.bind reads_comparison
  intro first d hd
  refine Reads.optional (looks_sees _) (by decide) (by decide) rfl ?_ ?_
  · apply Reads.bind (reads_leaf rfl)
    intro operator d₁ h₁
    apply reads_comparison.map
    intro second d₂ h₂
    refine trees_construct rfl rfl ⟨Derivation.start?_seq hd.start _, ?_⟩
    simp [hd.trees, h₁.trees, h₂.trees]
  · refine trees_construct rfl rfl ⟨Derivation.start?_seq hd.start _, ?_⟩
    simp [hd.trees]

/-! ## Instructions and blocks -/

section

variable {block : Reader Block} (reads_block : Reads n block (.construct .block)
  [.word "v:", .word "but"] fun b d => d.Stands b.position [b.tree])
include reads_block

theorem reads_loop : Reads (n + 1) (loop block) (.construct .loop) next fun i d =>
    d.Stands i.position [i.content] := by
  apply Reads.construct
  apply Reads.after rfl (reads_word _)
  intro position d hd
  apply Reads.bind (reads_word _)
  intro _ d₁ h₁
  apply Reads.bind (reads_block.narrow (Phrase.opens_subset rfl (by decide) _))
  intro body d₂ h₂
  apply Reads.bind (reads_word _)
  intro _ d₃ h₃
  apply Reads.bind (reads_word _)
  intro _ d₄ h₄
  apply Reads.bind reads_condition
  intro condition d₅ h₅
  apply Reads.bind (reads_word _)
  intro _ d₆ h₆
  apply (reads_word _).map
  intro _ d₇ h₇
  refine trees_construct rfl rfl ⟨Derivation.start?_seq hd.start _, ?_⟩
  simp [hd.trees, h₁.trees, h₂.trees, h₃.trees, h₄.trees, h₅.trees, h₆.trees, h₇.trees, Block.tree]

theorem reads_ifBranch : Reads (n + 1) (do
      let position ← word "siuuu"
      let _ ← word "("
      let condition ← condition
      let _ ← word ")"
      let body ← enclosed block
      return (position, condition, body)) (.construct .ifBranch) next fun x d =>
    d.Stands x.1 [.inner .ifBranch x.1 [x.2.1.tree, x.2.2.tree]] := by
  apply Reads.construct
  unfold enclosed
  simp only [bind_assoc, pure_bind]
  apply Reads.after rfl (reads_word _)
  intro position d hd
  apply Reads.bind (reads_word _)
  intro _ d₁ h₁
  apply Reads.bind reads_condition
  intro condition d₂ h₂
  apply Reads.bind (reads_word _)
  intro _ d₃ h₃
  apply Reads.bind (reads_word _)
  intro _ d₄ h₄
  apply Reads.bind (reads_block.narrow (Phrase.opens_subset rfl (by decide) _))
  intro body d₅ h₅
  apply (reads_word _).map
  intro _ d₆ h₆
  refine trees_construct rfl rfl ⟨Derivation.start?_seq hd.start _, ?_⟩
  simp [hd.trees, h₁.trees, h₂.trees, h₃.trees, h₄.trees, h₅.trees, h₆.trees]

theorem reads_elseBranch : Reads (n + 1) (do
      let position ← word "nimodo"
      return (position, ← enclosed block)) (.construct .elseBranch) next fun x d =>
    d.Stands x.1 [.inner .elseBranch x.1 [x.2.tree]] := by
  apply Reads.construct
  unfold enclosed
  simp only [bind_assoc, pure_bind]
  apply Reads.after rfl (reads_word _)
  intro position d hd
  apply Reads.bind (reads_word _)
  intro _ d₁ h₁
  apply Reads.bind (reads_block.narrow (Phrase.opens_subset rfl (by decide) _))
  intro body d₂ h₂
  apply (reads_word _).map
  intro _ d₃ h₃
  refine trees_construct rfl rfl ⟨Derivation.start?_seq hd.start _, ?_⟩
  simp [hd.trees, h₁.trees, h₂.trees, h₃.trees]

omit reads_block in
/-- The two branches one after the other. -/
theorem conditional_eq : conditional block = (do
    let x ← (do
      let position ← word "siuuu"
      let _ ← word "("
      let condition ← condition
      let _ ← word ")"
      let body ← enclosed block
      return (position, condition, body))
    if ← sees (.word "nimodo") then do
      let y ← (do
        let position ← word "nimodo"
        return (position, ← enclosed block))
      return .branches x.1 x.2.1 x.2.2 y.1 y.2
    else return .branch x.1 x.2.1 x.2.2) := by
  simp only [conditional, bind_assoc, pure_bind]

theorem reads_conditional (hn : next.all fun y => (Terminal.word "nimodo").apart y) :
    Reads (n + 1) (conditional block) (.construct .conditional) next fun i d =>
      d.Stands i.position [i.content] := by
  rw [conditional_eq]
  apply Reads.construct
  apply Reads.bind (reads_ifBranch reads_block)
  intro x d hd
  refine Reads.optional (looks_sees _) (by decide) (by simpa using hn) rfl ?_ ?_
  · apply (reads_elseBranch reads_block).map
    intro y e he
    refine trees_construct rfl rfl ⟨Derivation.start?_seq hd.start _, ?_⟩
    simp [hd.trees, he.trees, Block.tree]
  · refine trees_construct rfl rfl ⟨Derivation.start?_seq hd.start _, ?_⟩
    simp [hd.trees, Block.tree]

omit reads_block in
theorem reads_giveBack : Reads n giveBack (.construct .return) next fun i d =>
    d.Stands i.position [i.content] := by
  apply Reads.construct
  apply Reads.bind (reads_word _)
  intro position d hd
  apply Reads.bind reads_expression
  intro value d₁ h₁
  apply (reads_word _).map
  intro _ d₂ h₂
  refine trees_construct rfl rfl ⟨Derivation.start?_seq hd.start _, ?_⟩
  simp [hd.trees, h₁.trees fun _ _ h => h.trees, h₂.trees]

theorem reads_instruction : Reads (n + 1) (instruction block) (.construct .instruction)
    Nonterminal.instruction.follow fun i d => d.Stands i.position [i.tree] := by
  have wrap {i : Instruction} {d : Derivation Nonterminal.instruction.production}
      (h : d.Stands i.position [i.content]) :
      (Derivation.construct d).Stands i.position [i.tree] := trees_construct rfl rfl h
  apply Reads.construct
  apply Reads.recast .exchange .exchange Derivation.yield_exchange Derivation.yield_exchange
  refine Reads.choose (looks_sees _) (by decide) (by decide) rfl ?_ ?_
  · exact reads_assignment.map fun a d h => wrap ⟨h.start, h.trees⟩
  refine Reads.choose (looks_sees _) (by decide) (by decide) rfl ?_ ?_
  · apply (reads_loop reads_block).mono (Nat.le_refl _) (List.Subset.refl _)
    intro i d h
    exact wrap ⟨h.start, h.trees⟩
  refine Reads.choose (looks_sees _) (by decide) (by decide) rfl ?_ ?_
  · refine (reads_conditional reads_block (by decide)).mono (Nat.le_refl _)
      (List.Subset.refl _) fun i d h => ?_
    exact wrap ⟨h.start, h.trees⟩
  apply Reads.orStuck (looks_sees _) (by decide) rfl
  apply reads_giveBack.mono (Nat.le_refl _) (List.Subset.refl _)
  intro i d h
  exact wrap ⟨h.start, h.trees⟩

end

theorem looks_instruction : Looks seesInstruction
    [.kind .identifier, .word "whenCuando", .word "siuuu", .word "messirve"] := by
  intro ts
  unfold seesInstruction
  simp only [Reader.bind_of_ok (looks_sees _ ts)]
  cases ts with
  | nil => rfl
  | cons t ts =>
    simp only [List.head?_cons, Option.any_some, List.any_cons, List.any_nil, Bool.or_false,
      ← Bool.or_assoc]
    rfl

theorem reads_blockWithin (n : Nat) :
    Reads n (blockWithin n) (.some (.construct .instruction)) [.word "v:", .word "but"]
      fun b d => d.Stands b.position b.trees := by
  induction n with
  | zero =>
    -- A block of one instruction that has no blocks in it.
    obtain ⟨i, d, h⟩ : ∃ (i : Instruction) (d : Derivation (.construct .instruction)),
        d.Stands i.position [i.tree] := by
      obtain ⟨i, d, h⟩ := (reads_giveBack : Reads 0 giveBack _ [] _).inhabited
      exact ⟨i, .construct (.other (.other (.other d))), trees_construct rfl rfl ⟨h.start, h.trees⟩⟩
    refine ⟨fun hr => ?_, fun d rest hd _ _ => ?_, ⟨.last i, .seq d .done, ?_, ?_⟩,
      fun {ts _ _} hr => ?_⟩
    · cases hr
    · exact absurd (List.length_eq_zero_iff.mp (Nat.le_zero.mp hd)) (d.yield_ne_nil rfl)
    · exact Derivation.start?_seq h.start _
    · rw [Derivation.trees_seq, h.trees]
      rfl
    · cases hr
      exact ⟨[], rfl, Phrase.begins_nil (.seq d .done)⟩
  | succ n ih =>
    have block : Reads n (blockWithin n) (.construct .block) [.word "v:", .word "but"]
        fun b d => d.Stands b.position [b.tree] := by
      refine Reads.construct (ih.mono (Nat.le_refl n) (List.Subset.refl _) fun b d h => ?_)
      exact trees_construct rfl rfl h
    apply Reads.after rfl (reads_instruction block)
    intro first d hd
    apply Reads.recast .listed .unlisted Derivation.yield_listed Derivation.yield_unlisted
    refine Reads.optional looks_instruction (by decide) (by decide) rfl ?_ ?_
    · refine ih.map fun rest e he => ⟨Derivation.start?_seq hd.start _, ?_⟩
      rw [Derivation.trees_seq, Derivation.trees_listed, Derivation.trees_present, hd.trees,
        he.trees]
      rfl
    · refine ⟨Derivation.start?_seq hd.start _, ?_⟩
      rw [Derivation.trees_seq, Derivation.trees_listed, hd.trees]
      rfl

theorem reads_block : Reads n block (.construct .block) [.word "v:", .word "but"] fun b d =>
    d.Stands b.position [b.tree] := by
  have within (k : Nat) : Reads k (blockWithin k) (.construct .block) [.word "v:", .word "but"]
      fun b d => d.Stands b.position [b.tree] := by
    apply Reads.construct
    apply (reads_blockWithin k).mono (Nat.le_refl k) (List.Subset.refl _)
    intro b d h
    exact trees_construct rfl rfl h
  refine ⟨fun {ts b rest} hr => ?_, fun d rest _ hp hs => ?_, (within 0).inhabited,
    fun {ts _ _} hr => ?_⟩
  · exact (within ts.length).sound hr
  · refine (within (d.yield ++ rest).length).complete d ?_ hp hs
    rw [List.length_append]
    exact Nat.le_add_right _ _
  · exact (within ts.length).begins hr

/-! ## Programs -/

theorem reads_function : Reads n function (.construct .function) next fun f d =>
    d.Stands f.position [f.tree] := by
  apply Reads.construct
  unfold function bracketed enclosed
  simp only [bind_assoc, pure_bind]
  apply Reads.bind (reads_word _)
  intro position d hd
  apply Reads.bind (reads_leaf rfl)
  intro name d₁ h₁
  apply Reads.bind (reads_word _)
  intro _ d₂ h₂
  apply Reads.bind reads_parameters
  intro parameters d₃ h₃
  apply Reads.bind (reads_word _)
  intro _ d₄ h₄
  apply Reads.bind (reads_word _)
  intro _ d₅ h₅
  apply Reads.bind (reads_block.narrow (Phrase.opens_subset rfl (by decide) _))
  intro body d₆ h₆
  apply (reads_word _).map
  intro _ d₇ h₇
  refine trees_named rfl (Or.inl rfl) ⟨Derivation.start?_seq hd.start _, ?_⟩
  simp [hd.trees, h₁.trees, h₂.trees, h₃, h₄.trees, h₅.trees, h₆.trees, h₇.trees]

theorem reads_entryPoint : Reads n entryPoint (.construct .main) next fun e d =>
    d.Stands e.position [e.tree] := by
  apply Reads.construct
  unfold entryPoint enclosed
  simp only [bind_assoc, pure_bind]
  apply Reads.bind (reads_word _)
  intro position d hd
  apply Reads.bind (reads_word _)
  intro _ d₁ h₁
  apply Reads.bind (reads_word _)
  intro _ d₂ h₂
  apply Reads.bind (reads_word _)
  intro _ d₃ h₃
  apply Reads.bind (reads_block.narrow (Phrase.opens_subset rfl (by decide) _))
  intro body d₄ h₄
  apply (reads_word _).map
  intro _ d₅ h₅
  refine trees_construct rfl rfl ⟨Derivation.start?_seq hd.start _, ?_⟩
  simp [hd.trees, h₁.trees, h₂.trees, h₃.trees, h₄.trees, h₅.trees]

theorem reads_program : Reads n program (.construct .program) [] fun p d => d.tree = p.tree := by
  apply Reads.construct
  refine Reads.bind (Reads.many (looks_sees _) (by decide) (by decide) rfl
    reads_assignment) fun assignments d hd => ?_
  refine Reads.bind (Reads.many (looks_sees _) (by decide) (by decide) rfl
    reads_function) fun functions d₁ h₁ => ?_
  apply reads_entryPoint.map
  intro main d₂ h₂
  have start :
      (d.seq (d₁.seq d₂)).start? = some (Program.mk assignments functions main).position := by
    rw [Derivation.start?_seq_or, Derivation.start?_seq_or, hd.start? fun _ _ h => h.start,
      h₁.start? fun _ _ h => h.start, h₂.start, Program.position, List.headD_eq_head?_getD,
      List.head?_append]
    cases (assignments.map fun a => a.target.position).head? <;>
      cases (functions.map Function.position).head? <;> rfl
  have trees : (d.seq (d₁.seq d₂)).trees =
      assignments.map Assignment.tree ++ functions.map Function.tree ++ [main.tree] := by
    rw [Derivation.trees_seq, Derivation.trees_seq, hd.trees_map fun _ _ h => h.trees,
      h₁.trees_map fun _ _ h => h.trees, h₂.trees, List.append_assoc]
  rw [Derivation.tree, start, trees]
  rfl

end Grammar

/-! ## Whole lists of tokens -/

theorem Program.ofTokens_eq_ok {tokens : List Token} {p : Program} :
    Program.ofTokens tokens = .ok p ↔
      Grammar.program Terminal.recognizes tokens = .ok (p, []) := by
  unfold Program.ofTokens Program.read
  split <;> simp_all

/-- What is read has a derivation, and the tree of it. -/
theorem Program.derivation_of_ofTokens {tokens : List Token} {p : Program}
    (h : Program.ofTokens tokens = .ok p) :
    ∃ d : Derivation (.construct .program), d.yield = tokens ∧ d.tree = p.tree := by
  have reads := Grammar.reads_program (n := tokens.length)
  obtain ⟨d, hd, ht⟩ := reads.sound (Program.ofTokens_eq_ok.mp h)
  rw [List.append_nil] at hd
  exact ⟨d, hd.symm, ht⟩

theorem Derivation.ofTokens_yield (d : Derivation (.construct .program))
    (hp : ∀ t ∈ d.yield, t.Producible) : ∃ p, Program.ofTokens d.yield = .ok p := by
  have reads := Grammar.reads_program (n := d.yield.length)
  have produced : ∀ t ∈ d.yield ++ [], t.Producible := by rwa [List.append_nil]
  obtain ⟨p, h⟩ := reads.complete d (Nat.le_refl _) produced (startsIn_nil _)
  rw [List.append_nil] at h
  exact ⟨p, Program.ofTokens_eq_ok.mpr h⟩

theorem Derivation.eq_of_yield {d e : Derivation (.construct .program)}
    (hp : ∀ t ∈ d.yield, t.Producible) (h : d.yield = e.yield) : d = e := by
  have produced : ∀ t ∈ d.yield ++ [], t.Producible := by rwa [List.append_nil]
  have same : d.yield ++ [] = e.yield ++ [] := by rw [h]
  have decided : (Phrase.construct .program).decided [] := rfl
  exact (d.unique decided e produced (startsIn_nil _) (startsIn_nil _) same).1

/-- Tokens that can come from scanning are a program exactly where the grammar derives them.
They have no second derivation, and the tree of the program is that of the derivation. -/
theorem Program.ofTokens_iff_derivation (tokens : List Token)
    (hp : ∀ t ∈ tokens, t.Producible) :
    ((∃ p, Program.ofTokens tokens = .ok p) ↔
        ∃ d : Derivation (.construct .program), d.yield = tokens) ∧
      (∀ d e : Derivation (.construct .program), d.yield = tokens → e.yield = tokens → d = e) ∧
      ∀ (p : Program) (d : Derivation (.construct .program)),
        Program.ofTokens tokens = .ok p → d.yield = tokens → p.tree = d.tree := by
  refine ⟨⟨?_, ?_⟩, ?_, ?_⟩
  · rintro ⟨p, h⟩
    obtain ⟨d, hd, -⟩ := derivation_of_ofTokens h
    exact ⟨d, hd⟩
  · rintro ⟨d, rfl⟩
    exact d.ofTokens_yield hp
  · rintro d e rfl he
    exact Derivation.eq_of_yield hp he.symm
  · rintro p d h rfl
    obtain ⟨e, he, ht⟩ := derivation_of_ofTokens h
    rw [← ht, Derivation.eq_of_yield hp he.symm]

/-- The shortest program is read. -/
theorem Program.ofTokens_iff_derivation_shortest :
    let tokens : List Token := [⟨.keyword, "maracuya", ⟨1, 1⟩⟩, ⟨.punctuation, "(", ⟨1, 9⟩⟩,
      ⟨.punctuation, ")", ⟨1, 10⟩⟩, ⟨.punctuation, "xD", ⟨1, 12⟩⟩, ⟨.keyword, "messirve", ⟨1, 15⟩⟩,
      ⟨.punctuation, ".", ⟨1, 23⟩⟩, ⟨.punctuation, "v:", ⟨1, 25⟩⟩]
    (∀ t ∈ tokens, t.Producible) ∧ (∃ p, Program.ofTokens tokens = .ok p) ∧
      ∃ d : Derivation (.construct .program), d.yield = tokens := by
  intro tokens
  have hp : ∀ t ∈ tokens, t.Producible := by
    simp only [tokens, List.forall_mem_cons]
    exact ⟨⟨_, rfl, rfl⟩, ⟨_, rfl, rfl⟩, ⟨_, rfl, rfl⟩, ⟨_, rfl, rfl⟩, ⟨_, rfl, rfl⟩, ⟨_, rfl, rfl⟩,
      ⟨_, rfl, rfl⟩, by simp⟩
  have read : ∃ p, Program.ofTokens tokens = .ok p := ⟨_, rfl⟩
  exact ⟨hp, read, (Program.ofTokens_iff_derivation tokens hp).1.mp read⟩

end Mamuth
