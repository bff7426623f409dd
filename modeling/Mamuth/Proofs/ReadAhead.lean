-- Readers do not read ahead. Whether a reader ends with a result or gets stuck, it has looked
-- at no token beyond the one it stops at: other tokens after that one change nothing but what is
-- left. Readers that count the tokens left do so only to bound their own recursion, and a
-- bound that suffices can be any other. Nor does it matter how the tokens are tested, if the test
-- says the same of those that are there.
import Mamuth.Proofs.Productions

namespace Mamuth

open Reader

/-- What a reader returns when it ends in front of `rest`, with a result or stuck. -/
def Reader.endsAt : Except Expected α → List Token → Except Stuck (α × List Token)
  | .ok x, rest => .ok (x, rest)
  | .error expected, rest => .error ⟨expected, rest⟩

theorem Reader.endsAt_inj {o o' : Except Expected α} {rest rest' : List Token}
    (h : endsAt o rest = endsAt o' rest') : o = o' ∧ rest = rest' := by
  cases o <;> cases o' <;> cases h
  · exact ⟨rfl, rfl⟩
  · exact ⟨rfl, rfl⟩

/-- The two tests count each of the tokens as the same terminals. -/
def AgreeOn (ρ ρ' : Recognizer) (ts : List Token) : Prop :=
  ∀ t ∈ ts, ∀ x, ρ x t = ρ' x t

/-- What the first reader takes of at most `n` tokens on which the tests agree, the second one
takes too by the other test, with the same end, whenever the same token comes next and there are
at most `m` tokens in all. If `costs`, no result comes without a token taken. -/
def Alike (ρ ρ' : Recognizer) (costs : Bool) (n m : Nat) (r r' : Reader α) : Prop :=
  ∀ ts, ts.length ≤ n → AgreeOn ρ ρ' ts → ∃ o taken rest, ts = taken ++ rest ∧
    (costs → ∀ x, o = .ok x → taken ≠ []) ∧ r ρ ts = endsAt o rest ∧
    ∀ rest', rest'.head? = rest.head? → (taken ++ rest').length ≤ m →
      r' ρ' (taken ++ rest') = endsAt o rest'

section

variable {ρ ρ' : Recognizer} {a b : Bool} {n m : Nat}

/-! ## Single steps -/

theorem alike_pure (x : α) : Alike ρ ρ' false n m (pure x) (pure x) :=
  fun ts _ _ => ⟨.ok x, [], ts, rfl, nofun, rfl, fun _ _ _ => rfl⟩

theorem alike_stuck (expected : Expected) :
    Alike ρ ρ' true n m (stuck expected : Reader α) (stuck expected) :=
  fun ts _ _ => ⟨.error expected, [], ts, rfl, nofun, rfl, fun _ _ _ => rfl⟩

theorem alike_sees (x : Terminal) : Alike ρ ρ' false n m (sees x) (sees x) := by
  intro ts _ agree
  refine ⟨.ok (ts.head?.any (ρ x)), [], ts, rfl, nofun, rfl, fun rest' hh _ => ?_⟩
  have same : rest'.head?.any (ρ' x) = ts.head?.any (ρ x) := by
    rw [hh]
    cases ts with
    | nil => rfl
    | cons t ts => exact (agree t List.mem_cons_self x).symm
  rw [← same]
  rfl

theorem alike_take (x : Terminal) : Alike ρ ρ' true n m (take x) (take x) := by
  intro ts _ agree
  cases ts with
  | nil =>
    refine ⟨.error (.terminal x), [], [], rfl, nofun, rfl, fun rest' hh _ => ?_⟩
    rw [List.head?_eq_none_iff.mp hh]
    rfl
  | cons t ts =>
    have same : ρ x t = ρ' x t := agree t List.mem_cons_self x
    by_cases ht : ρ x t
    · exact ⟨.ok t, [t], ts, rfl, fun _ _ _ => by simp, if_pos ht,
        fun rest' _ _ => if_pos (same ▸ ht)⟩
    · refine ⟨.error (.terminal x), [], t :: ts, rfl, nofun, if_neg ht, fun rest' hh _ => ?_⟩
      obtain ⟨rest, rfl⟩ := List.head?_eq_some_iff.mp hh
      exact if_neg (same ▸ ht)

theorem Alike.weaken {r r' : Reader α} (h : Alike ρ ρ' a n m r r') :
    Alike ρ ρ' false n m r r' := by
  intro ts hts agree
  obtain ⟨o, taken, rest, he, -, more⟩ := h ts hts agree
  exact ⟨o, taken, rest, he, nofun, more⟩

/-! ## One reader after another -/

/-- The second part has at most as many tokens as the first one leaves. -/
theorem Alike.andThen {r r' : Reader α} {f f' : α → Reader β} {n' m' : Nat}
    (h : Alike ρ ρ' a n m r r') (hf : ∀ x, Alike ρ ρ' b n' m' (f x) (f' x))
    (hl : ∀ taken rest : List Token, (a → taken ≠ []) →
      ((taken ++ rest).length ≤ n → rest.length ≤ n') ∧
      ((taken ++ rest).length ≤ m → rest.length ≤ m')) :
    Alike ρ ρ' (a || b) n m (r >>= f) (r' >>= f') := by
  intro ts hts agree
  obtain ⟨o, taken, rest, rfl, costs, hr, hr'⟩ := h ts hts agree
  cases o with
  | error expected =>
    refine ⟨.error expected, taken, rest, rfl, nofun, ?_, fun rest' hh hm => ?_⟩
    · rw [Reader.bind_apply, hr]
      rfl
    · rw [Reader.bind_apply, hr' rest' hh hm]
      rfl
  | ok x =>
    have costs (ha : a) : taken ≠ [] := costs ha x rfl
    obtain ⟨o, next, rest, rfl, more, hx, hx'⟩ := hf x rest ((hl taken rest costs).1 hts)
      fun t ht => agree t (List.mem_append_right taken ht)
    refine ⟨o, taken ++ next, rest, (List.append_assoc _ _ _).symm, fun hab y hy hnil => ?_, ?_,
      fun rest' hh hm => ?_⟩
    · obtain ⟨ht, hn⟩ := List.append_eq_nil_iff.mp hnil
      rcases (Bool.or_eq_true _ _).mp hab with ha | hb
      · exact costs ha ht
      · exact more hb y hy hn
    · rw [Reader.bind_of_ok hr, hx]
    · rw [List.append_assoc] at hm ⊢
      have same : (next ++ rest').head? = (next ++ rest).head? := by
        rw [List.head?_append, List.head?_append, hh]
      rw [Reader.bind_of_ok (hr' (next ++ rest') same hm)]
      exact hx' rest' hh ((hl taken _ costs).2 hm)

theorem Alike.bind {r r' : Reader α} {f f' : α → Reader β} (h : Alike ρ ρ' a n m r r')
    (hf : ∀ x, Alike ρ ρ' b n m (f x) (f' x)) :
    Alike ρ ρ' (a || b) n m (r >>= f) (r' >>= f') := by
  refine h.andThen hf fun taken rest _ => ?_
  rw [List.length_append]
  omega

/-- What comes after a part that takes a token has fewer tokens. -/
theorem Alike.after {r r' : Reader α} {f f' : α → Reader β}
    (h : Alike ρ ρ' true (n + 1) (m + 1) r r')
    (hf : ∀ x, Alike ρ ρ' b n m (f x) (f' x)) :
    Alike ρ ρ' true (n + 1) (m + 1) (r >>= f) (r' >>= f') := by
  refine h.andThen hf fun taken rest costs => ?_
  have := List.length_pos_iff.mpr (costs rfl)
  rw [List.length_append]
  omega

theorem Alike.ifSeen {sees : Reader Bool} {r r' s s' : Reader α}
    (looks : Alike ρ ρ' false n m sees sees) (h : Alike ρ ρ' a n m r r')
    (h' : Alike ρ ρ' a n m s s') :
    Alike ρ ρ' a n m (do if ← sees then r else s) (do if ← sees then r' else s') := by
  refine looks.bind fun seen => ?_
  cases seen
  · exact h'
  · exact h

/-! ## Bounds -/

/-- Readers with a bound, which end alike where no tokens are left. -/
theorem alike_within {F : Nat → Reader α} {o : Except Expected α}
    (nil : ∀ ρ k, F k ρ [] = endsAt o []) (costs : a → ∀ x, o ≠ .ok x)
    (step : ∀ n m, Alike ρ ρ' a n m (F n) (F m) →
      Alike ρ ρ' a (n + 1) (m + 1) (F (n + 1)) (F (m + 1))) (n m : Nat) :
    Alike ρ ρ' a n m (F n) (F m) := by
  induction n generalizing m with
  | zero =>
    intro ts hts _
    obtain rfl := List.length_eq_zero_iff.mp (Nat.le_zero.mp hts)
    refine ⟨o, [], [], rfl, fun ha x hx => absurd hx (costs ha x), nil _ 0, fun rest' hh _ => ?_⟩
    rw [List.head?_eq_none_iff.mp hh]
    exact nil _ m
  | succ n ih =>
    cases m with
    | succ m => exact step n m (ih m)
    | zero =>
      -- Within a bound of zero there is only the empty list, where all bounds are the same.
      intro ts hts agree
      obtain ⟨o', taken, rest, rfl, some, hr, hr'⟩ := step n 0 (ih 0) ts hts agree
      refine ⟨o', taken, rest, rfl, some, hr, fun rest' hh hl => ?_⟩
      have none := List.length_eq_zero_iff.mp (Nat.le_zero.mp hl)
      have one := hr' rest' hh (Nat.le_trans hl (Nat.zero_le 1))
      obtain ⟨-, rfl⟩ := List.append_eq_nil_iff.mp none
      rw [none] at one ⊢
      rw [nil _ 0, ← nil _ 1, one]

/-- With a bound by the number of tokens left there is none. -/
theorem Alike.unbounded {F : Nat → Reader α} (h : ∀ n m, Alike ρ ρ' a n m (F n) (F m))
    {ts : List Token} (agree : AgreeOn ρ ρ' ts) :
    ∃ o taken rest, ts = taken ++ rest ∧
      (a → ∀ x, o = .ok x → taken ≠ []) ∧ F ts.length ρ ts = endsAt o rest ∧
      ∀ rest', rest'.head? = rest.head? →
        F (taken ++ rest').length ρ' (taken ++ rest') = endsAt o rest' := by
  obtain ⟨o, taken, rest, rfl, costs, hr, -⟩ := h ts.length 0 ts (Nat.le_refl _) agree
  refine ⟨o, taken, rest, rfl, costs, hr, fun rest' hh => ?_⟩
  obtain ⟨o', taken', other, he, -, hr', more⟩ :=
    h (taken ++ rest).length (taken ++ rest').length _ (Nat.le_refl _) agree
  obtain ⟨rfl, rfl⟩ := endsAt_inj (hr.symm.trans hr')
  obtain rfl := List.append_cancel_right he
  exact more rest' hh (Nat.le_refl _)

theorem alike_left {F : Nat → Reader α} (h : ∀ n m, Alike ρ ρ' a n m (F n) (F m)) :
    Alike ρ ρ' a n m (do F (← left)) (do F (← left)) := by
  intro ts _ agree
  obtain ⟨o, taken, rest, he, costs, hr, more⟩ := Alike.unbounded h agree
  exact ⟨o, taken, rest, he, costs, hr, fun rest' hh _ => more rest' hh⟩

theorem alike_manyWithin {item : Reader α} (x : Terminal)
    (h : ∀ n m, Alike ρ ρ' true n m item item) (n m : Nat) :
    Alike ρ ρ' false n m (manyWithin (sees x) item n) (manyWithin (sees x) item m) := by
  refine alike_within (a := false) (F := manyWithin (sees x) item) (o := .ok []) (fun _ k => ?_)
    nofun (fun n m ih => ?_) n m
  · cases k <;> rfl
  · have more := (h (n + 1) (m + 1)).after fun y => ih.bind fun ys => alike_pure (y :: ys)
    exact (alike_sees x).ifSeen more.weaken (alike_pure [])

theorem alike_many {item : Reader α} (x : Terminal)
    (h : ∀ n m, Alike ρ ρ' true n m item item) :
    Alike ρ ρ' false n m (many (sees x) item) (many (sees x) item) :=
  alike_left (alike_manyWithin x h)

theorem alike_word (text : String) : Alike ρ ρ' true n m (word text) (word text) :=
  (alike_take _).bind fun t => alike_pure t.position

namespace Grammar

/-! ## Values and expressions -/

theorem alike_leaf (k : Token.Kind) : Alike ρ ρ' true n m (leaf k) (leaf k) :=
  (alike_take _).bind fun t => alike_pure (Leaf.mk t.lexeme t.position)

theorem alike_value : Alike ρ ρ' true n m value value := by
  have only (k : Token.Kind) (f : Leaf → Value) :
      Alike ρ ρ' true n m (do return f (← leaf k)) (do return f (← leaf k)) :=
    (alike_leaf k).bind fun l => alike_pure (f l)
  exact (alike_sees _).ifSeen (only _ _) <| (alike_sees _).ifSeen (only _ _) <|
    (alike_sees _).ifSeen (only _ _) <| (alike_sees _).ifSeen (only _ _) <|
    (alike_sees _).ifSeen (only _ _) (alike_stuck _)

theorem alike_seesValue : Alike ρ ρ' false n m seesValue seesValue :=
  (alike_sees _).bind fun _ => (alike_sees _).bind fun _ => (alike_sees _).bind fun _ =>
    (alike_sees _).bind fun _ => (alike_sees _).bind fun _ => alike_pure _

theorem alike_math : Alike ρ ρ' true n m math math := by
  have item (n m : Nat) : Alike ρ ρ' true n m
      (do return (← leaf .operator, ← value)) (do return (← leaf .operator, ← value)) :=
    (alike_leaf _).bind fun o => alike_value.bind fun v => alike_pure (o, v)
  exact (alike_word _).bind fun _ => alike_value.bind fun _ =>
    (alike_many _ item).bind fun _ => (alike_word _).bind fun _ => alike_pure _

section

variable {item : Reader α} (h : ∀ n m, Alike ρ ρ' true n m item item)
include h

theorem alike_commaSeparated :
    Alike ρ ρ' true n m (commaSeparated item) (commaSeparated item) := by
  have more (n m : Nat) : Alike ρ ρ' true n m
      (do let _ ← word ","; item) (do let _ ← word ","; item) :=
    (alike_word _).bind fun _ => h n m
  exact (h n m).bind fun _ => (alike_many _ more).bind fun _ => alike_pure _

/-- The next token tells whether any tokens are left. -/
theorem alike_itemsBeforeBracket :
    Alike ρ ρ' false n m (itemsBeforeBracket item) (itemsBeforeBracket item) := by
  have some : Alike ρ ρ' false n m
      (do if ← sees (.word ")") then return [] else commaSeparated item)
      (do if ← sees (.word ")") then return [] else commaSeparated item) :=
    (alike_sees _).ifSeen (alike_pure []) (alike_commaSeparated h).weaken
  intro ts hts agree
  cases ts with
  | nil =>
    refine ⟨.ok [], [], [], rfl, nofun, rfl, fun rest' hh _ => ?_⟩
    rw [List.head?_eq_none_iff.mp hh]
    rfl
  | cons t ts =>
    obtain ⟨o, taken, rest, he, costs, hr, hr'⟩ := some (t :: ts) hts agree
    refine ⟨o, taken, rest, he, costs, ?_, fun rest' hh hm => ?_⟩
    · rw [itemsBeforeBracket_cons, hr]
    · have same : (taken ++ rest').head? = Option.some t := by
        rw [List.head?_append, hh, ← List.head?_append, ← he, List.head?_cons]
      obtain ⟨us, hu⟩ := List.head?_eq_some_iff.mp same
      rw [← hr' rest' hh hm, hu, itemsBeforeBracket_cons]

theorem alike_bracketed : Alike ρ ρ' true n m (bracketed item) (bracketed item) :=
  (alike_word _).bind fun _ => (alike_itemsBeforeBracket h).bind fun _ =>
    (alike_word _).bind fun _ => alike_pure _

end

theorem alike_invocation : Alike ρ ρ' true n m invocation invocation :=
  (alike_word _).bind fun _ => (alike_leaf _).bind fun _ =>
    (alike_bracketed fun _ _ => alike_value).bind fun _ => alike_pure _

theorem alike_expression : Alike ρ ρ' false n m expression? expression? :=
  (alike_sees _).ifSeen (alike_math.bind fun _ => alike_pure _).weaken <|
    (alike_sees _).ifSeen (alike_invocation.bind fun _ => alike_pure _).weaken <|
    alike_seesValue.ifSeen (alike_value.bind fun _ => alike_pure _).weaken (alike_pure _)

theorem alike_assignment : Alike ρ ρ' true n m assignment assignment := by
  refine (alike_leaf _).bind fun target => (alike_word _).bind fun _ =>
    alike_expression.bind (b := true) fun value => ?_
  cases value with
  | none => exact alike_stuck _
  | some value => exact (alike_word _).bind fun _ => alike_pure _

theorem alike_comparison : Alike ρ ρ' true n m comparison comparison :=
  alike_value.bind fun _ => (alike_leaf _).bind fun _ => alike_value.bind fun _ => alike_pure _

theorem alike_condition : Alike ρ ρ' true n m condition condition :=
  alike_comparison.bind fun _ => (alike_sees _).ifSeen
    ((alike_leaf _).bind fun _ => alike_comparison.bind fun _ => alike_pure _).weaken
    (alike_pure _)

/-! ## Instructions and blocks -/

section

variable {block block' : Reader Block} (h : Alike ρ ρ' true n m block block')
include h

theorem alike_enclosed : Alike ρ ρ' true n m (enclosed block) (enclosed block') :=
  (alike_word _).bind fun _ => h.bind fun _ => (alike_word _).bind fun _ => alike_pure _

theorem alike_loop : Alike ρ ρ' true (n + 1) (m + 1) (loop block) (loop block') :=
  (alike_word _).after fun _ => (alike_word _).bind fun _ =>
    h.bind fun _ => (alike_word _).bind fun _ => (alike_word _).bind fun _ =>
    alike_condition.bind fun _ => (alike_word _).bind fun _ => (alike_word _).bind fun _ =>
    alike_pure _

theorem alike_conditional :
    Alike ρ ρ' true (n + 1) (m + 1) (conditional block) (conditional block') :=
  (alike_word _).after fun _ => (alike_word _).bind fun _ =>
    alike_condition.bind fun _ => (alike_word _).bind fun _ => (alike_enclosed h).bind fun _ =>
    (alike_sees _).ifSeen ((alike_word _).bind fun _ => (alike_enclosed h).bind fun _ =>
      alike_pure _).weaken (alike_pure _)

omit h in
theorem alike_giveBack : Alike ρ ρ' true n m giveBack giveBack :=
  (alike_word _).bind fun _ => alike_expression.bind fun _ => (alike_word _).bind fun _ =>
    alike_pure _

theorem alike_instruction :
    Alike ρ ρ' true (n + 1) (m + 1) (instruction block) (instruction block') :=
  (alike_sees _).ifSeen (alike_assignment.bind fun _ => alike_pure _) <|
    (alike_sees _).ifSeen (alike_loop h) <| (alike_sees _).ifSeen (alike_conditional h) <|
    (alike_sees _).ifSeen alike_giveBack (alike_stuck _)

end

theorem alike_seesInstruction : Alike ρ ρ' false n m seesInstruction seesInstruction :=
  (alike_sees _).bind fun _ => (alike_sees _).bind fun _ => (alike_sees _).bind fun _ =>
    (alike_sees _).bind fun _ => alike_pure _

theorem alike_blockWithin (n m : Nat) :
    Alike ρ ρ' true n m (blockWithin n) (blockWithin m) := by
  refine alike_within (o := .error (.construct .instruction)) (fun _ k => ?_) nofun
    (fun n m ih => ?_) n m
  · cases k <;> rfl
  · exact (alike_instruction ih).after fun _ => alike_seesInstruction.ifSeen
      (ih.bind fun _ => alike_pure _).weaken (alike_pure _)

theorem alike_block : Alike ρ ρ' true n m block block := alike_left alike_blockWithin

/-! ## Programs -/

theorem alike_function : Alike ρ ρ' true n m function function :=
  (alike_word _).bind fun _ => (alike_leaf _).bind fun _ =>
    (alike_bracketed fun _ _ => alike_leaf _).bind fun _ =>
    (alike_enclosed alike_block).bind fun _ => alike_pure _

theorem alike_entryPoint : Alike ρ ρ' true n m entryPoint entryPoint :=
  (alike_word _).bind fun _ => (alike_word _).bind fun _ => (alike_word _).bind fun _ =>
    (alike_enclosed alike_block).bind fun _ => alike_pure _

theorem alike_program : Alike ρ ρ' true n m program program :=
  (alike_many _ fun _ _ => alike_assignment).bind fun _ =>
    (alike_many _ fun _ _ => alike_function).bind fun _ =>
    alike_entryPoint.bind fun _ => alike_pure _

end Grammar

/-- By tests that agree on the tokens they are the same program, or have the same error. -/
theorem Program.read_congr {ts : List Token} (agree : AgreeOn ρ ρ' ts) :
    Program.read ρ ts = Program.read ρ' ts := by
  obtain ⟨o, taken, rest, rfl, -, hr, hr'⟩ :=
    Alike.unbounded (fun n m => Grammar.alike_program (n := n) (m := m)) agree
  rw [read, read, hr, hr' rest rfl]

end

end Mamuth
