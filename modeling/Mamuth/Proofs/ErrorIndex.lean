-- The index of an error. Reading a program stops at one token, or where the tokens end, and what
-- comes of it depends on the tokens up to there and on no others. Where the tokens make a program
-- or end too early, nothing is wrong with any of them, whatever tokens come behind.
import Mamuth.Proofs.Cursor
import Mamuth.Proofs.ViablePrefixes

namespace Mamuth

open Reader

/-! ## Readers that end with a token of their own -/

/-- Such a reader takes some tokens and gives the same result whatever comes behind them: it does
not look at the next token before it ends. -/
def Reader.Closed (ρ : Recognizer) (r : Reader α) : Prop :=
  ∀ ts x rest, r ρ ts = .ok (x, rest) →
    ∃ taken, taken ≠ [] ∧ ts = taken ++ rest ∧ ∀ rest', r ρ (taken ++ rest') = .ok (x, rest')

section

variable {ρ : Recognizer}

theorem closed_take (x : Terminal) : Closed ρ (take x) := by
  intro ts t rest h
  cases ts with
  | nil => cases h
  | cons u us =>
    by_cases hu : ρ x u
    · rw [take, if_pos hu] at h
      cases h
      exact ⟨[t], by simp, rfl, fun _ => if_pos hu⟩
    · rw [take, if_neg hu] at h
      cases h

theorem Reader.Closed.map {r : Reader α} (h : Closed ρ r) (f : α → β) :
    Closed ρ (do return f (← r)) := by
  intro ts y rest hy
  obtain ⟨x, mid, hr, hx⟩ := bind_eq_ok hy
  cases hx
  obtain ⟨taken, some, rfl, more⟩ := h ts x rest hr
  exact ⟨taken, some, rfl, fun rest' => bind_of_ok (more rest') _⟩

theorem closed_word (text : String) : Closed ρ (word text) := (closed_take _).map _

/-- The first part looks at one token behind it at most, and the second part takes that token. -/
theorem Alike.closed {a : Bool} {r : Reader α} {f : α → Reader β}
    (h : ∀ n m, Alike ρ ρ a n m r r) (hf : ∀ x, Closed ρ (f x)) : Closed ρ (r >>= f) := by
  intro ts y rest hy
  obtain ⟨x, mid, hr, hx⟩ := bind_eq_ok hy
  have agree : AgreeOn ρ ρ ts := fun _ _ _ => rfl
  obtain ⟨o, taken, mid', rfl, -, hr', same⟩ := Alike.unbounded (F := fun _ => r) h agree
  obtain ⟨rfl, rfl⟩ : o = .ok x ∧ mid' = mid := endsAt_inj (hr'.symm.trans hr)
  obtain ⟨next, some, rfl, more⟩ := hf x _ y rest hx
  refine ⟨taken ++ next, by simp [some], by simp, fun rest' => ?_⟩
  have head : (next ++ rest').head? = (next ++ rest).head? := by
    obtain ⟨t, next, rfl⟩ := List.exists_cons_of_ne_nil some
    rfl
  rw [List.append_assoc, bind_of_ok (same _ head)]
  exact more rest'

namespace Grammar

theorem closed_entryPoint : Closed ρ entryPoint := by
  have body : Closed ρ (enclosed block) :=
    Alike.closed (fun _ _ => alike_word _) fun _ => Alike.closed (fun _ _ => alike_block) fun _ =>
      (closed_word _).map _
  exact Alike.closed (fun _ _ => alike_word _) fun _ => Alike.closed (fun _ _ => alike_word _)
    fun _ => Alike.closed (fun _ _ => alike_word _) fun _ => body.map _

theorem closed_program : Closed ρ program :=
  Alike.closed (fun _ _ => alike_many _ fun _ _ => alike_assignment) fun _ =>
    Alike.closed (fun _ _ => alike_many _ fun _ _ => alike_function) fun _ =>
    closed_entryPoint.map _

end Grammar

end

/-! ## Where reading stops -/

/-- What is wrong with a token in front of which reading a program ends so. -/
def SyntaxError.inFrontOf (found : Token) : Except Expected Program → SyntaxError
  | .ok _ => .trailing found
  | .error expected => .unexpected expected found

namespace Program

/-- The tokens are no program, and the error is raised at this index: at a token, or where the
tokens end. -/
structure FailsAt (tokens : List Token) (i : Nat) (e : SyntaxError) : Prop where
  error : ofTokens tokens = .error e
  index : i + (leftover tokens).length = tokens.length

theorem leftover_eq {tokens rest : List Token} {o : Except Expected Program}
    (h : Grammar.program Terminal.recognizes tokens = endsAt o rest) : leftover tokens = rest := by
  rw [leftover, h]
  cases o <;> rfl

theorem ofTokens_inFrontOf {tokens rest : List Token} {found : Token}
    {o : Except Expected Program}
    (h : Grammar.program Terminal.recognizes tokens = endsAt o (found :: rest)) :
    ofTokens tokens = .error (.inFrontOf found o) := by
  rw [ofTokens, read, h]
  cases o <;> rfl

/-- Reading takes the same tokens whatever comes behind the one that it stops at. -/
theorem exists_stop (tokens : List Token) : ∃ o before, tokens = before ++ leftover tokens ∧
    ∀ rest, rest.head? = (leftover tokens).head? →
      Grammar.program Terminal.recognizes (before ++ rest) = endsAt o rest := by
  have agree : AgreeOn Terminal.recognizes Terminal.recognizes tokens := fun _ _ _ => rfl
  obtain ⟨o, before, rest, rfl, -, hr, same⟩ :=
    Alike.unbounded (fun n m => Grammar.alike_program (n := n) (m := m)) agree
  rw [leftover_eq hr]
  exact ⟨o, before, rfl, same⟩

/-- There is nothing left of a program, and nothing where more tokens are missing. -/
theorem leftover_eq_nil {tokens : List Token} (h : (∃ p, ofTokens tokens = .ok p) ∨
    ∃ expected position, ofTokens tokens = .error (.endOfInput expected position)) :
    leftover tokens = [] := by
  obtain ⟨o, before, split, stop⟩ := exists_stop tokens
  cases hl : leftover tokens with
  | nil => rfl
  | cons found rest =>
    rw [hl] at split stop
    have error := ofTokens_inFrontOf (split ▸ stop (found :: rest) rfl)
    rw [error] at h
    rcases h with ⟨p, h⟩ | ⟨_, _, h⟩
    · cases h
    · cases o <;> cases h

/-- The index is the one that a parser with an index stops at. -/
theorem failsAt_iff_index {tokens : List Token} {i : Nat} {e : SyntaxError} :
    FailsAt tokens i e ↔ Cursor.program tokens.toArray 0 = some (.error e, i) := by
  obtain ⟨-, before, split, -⟩ := exists_stop tokens
  have length := congrArg List.length split
  rw [List.length_append] at length
  rw [Cursor.program_eq, Option.some.injEq, Prod.mk.injEq]
  refine ⟨fun h => ⟨h.error, ?_⟩, fun h => ⟨h.1, ?_⟩⟩
  · have := h.index
    omega
  · have := h.2
    omega

/-- Every error has an index, and the token that the error is about stands there. -/
theorem exists_failsAt {tokens : List Token} {e : SyntaxError} (h : ofTokens tokens = .error e) :
    ∃ i ≤ tokens.length, FailsAt tokens i e ∧ e.found? = tokens[i]? := by
  obtain ⟨o, before, split, stop⟩ := exists_stop tokens
  have length := congrArg List.length split
  rw [List.length_append] at length
  refine ⟨before.length, by omega, ⟨h, length.symm⟩, ?_⟩
  have ended := stop (leftover tokens) rfl
  rw [← split] at ended
  rw [split, List.getElem?_append_right (Nat.le_refl _), Nat.sub_self]
  cases hl : leftover tokens with
  | nil =>
    rw [hl] at ended
    rw [ofTokens, read, ended] at h
    cases o <;> cases h
    rfl
  | cons found rest =>
    rw [hl] at ended
    cases (ofTokens_inFrontOf ended).symm.trans h
    cases o <;> rfl

/-- A list that agrees with another one up to an index begins with what stands before the index and
with what stands at it. -/
theorem eq_append_of_agrees {before rest us : List α} {x : α}
    (same : ∀ j ≤ before.length, us[j]? = (before ++ x :: rest)[j]?) :
    us = before ++ x :: us.drop (before.length + 1) := by
  have begin : us.take (before.length + 1) = before ++ [x] := by
    refine List.ext_getElem? fun j => ?_
    rw [List.getElem?_take]
    split
    · rename_i hj
      rw [same j (Nat.le_of_lt_succ hj), ← List.singleton_append, ← List.append_assoc,
        List.getElem?_append_left (by simpa using hj)]
    · rename_i hj
      rw [List.getElem?_eq_none (by simpa using hj)]
  calc us = us.take (before.length + 1) ++ us.drop (before.length + 1) :=
        (List.take_append_drop _ _).symm
    _ = before ++ x :: us.drop (before.length + 1) := by rw [begin]; simp

/-- Tokens that are the same up to the index have the error there too. -/
theorem FailsAt.of_agrees {ts us : List Token} {i : Nat} {e : SyntaxError} (h : FailsAt ts i e)
    (hi : i < ts.length) (same : ∀ j ≤ i, us[j]? = ts[j]?) : FailsAt us i e := by
  obtain ⟨o, before, split, stop⟩ := exists_stop ts
  have index := h.index
  have length := congrArg List.length split
  rw [List.length_append] at length
  obtain ⟨found, rest, hl⟩ : ∃ found rest, leftover ts = found :: rest :=
    List.exists_cons_of_length_pos (by omega)
  obtain rfl : i = before.length := by omega
  rw [hl] at split stop
  have error : e = .inFrontOf found o := by
    have error := ofTokens_inFrontOf (split ▸ stop (found :: rest) rfl)
    exact Except.error.inj (h.error.symm.trans error)
  have shape : us = before ++ found :: us.drop (before.length + 1) :=
    eq_append_of_agrees fun j hj => (same j hj).trans (by rw [split])
  have ended := stop (found :: us.drop (before.length + 1)) rfl
  rw [← shape] at ended
  refine ⟨error ▸ ofTokens_inFrontOf ended, ?_⟩
  rw [leftover_eq ended, ← List.length_append, ← shape]

/-- Tokens of which none is left are none of those at which reading stops, with more behind. -/
theorem length_le_of_leftover {ts : List Token} (h : leftover ts = []) (us : List Token) :
    (leftover (ts ++ us)).length ≤ us.length := by
  obtain ⟨o, before, split, stop⟩ := exists_stop (ts ++ us)
  rcases List.append_eq_append_iff.mp split with ⟨more, -, hu⟩ | ⟨more, rfl, hl⟩
  · have length := congrArg List.length hu
    rw [List.length_append] at length
    omega
  · cases more with
    | nil => exact Nat.le_of_eq (congrArg List.length hl)
    | cons found more =>
      have ended := stop (found :: more) (by rw [hl]; rfl)
      rw [leftover_eq ended] at h
      cases h

end Program

/-- The error of a list of tokens has an index. All lists that agree with this one up to the index
have the same error there, whatever follows. Of tokens that are a program or end too early none is
ever at fault, whatever follows; behind a program, it is the first token that is. -/
theorem Program.ofTokens_error_index (ts : List Token) :
    (∀ e, ofTokens ts = .error e → ∃ i ≤ ts.length, FailsAt ts i e ∧ e.found? = ts[i]?) ∧
    (∀ i e, FailsAt ts i e → i < ts.length →
      ∀ us : List Token, (∀ j ≤ i, us[j]? = ts[j]?) → FailsAt us i e) ∧
    ((∃ p, ofTokens ts = .ok p) ∨
        (∃ expected position, ofTokens ts = .error (.endOfInput expected position)) →
      ∀ us i e, FailsAt (ts ++ us) i e → ts.length ≤ i) ∧
    ∀ p, ofTokens ts = .ok p → ∀ u us, ofTokens (ts ++ u :: us) = .error (.trailing u) := by
  refine ⟨fun e => exists_failsAt, fun i e h hi us => h.of_agrees hi, fun h us i e fails => ?_,
    fun p h u us => ?_⟩
  · have index := fails.index
    have short := length_le_of_leftover (leftover_eq_nil h) us
    rw [List.length_append] at index
    omega
  · obtain ⟨taken, -, split, more⟩ := Grammar.closed_program _ _ _ (ofTokens_eq_ok.mp h)
    rw [List.append_nil] at split
    rw [ofTokens, read, split, more]

/-- A name stands in the brackets of an entry point, once at the end and once before more tokens;
and a name stands behind a whole program. -/
theorem Program.ofTokens_error_index_name :
    let name : Token := ⟨.identifier, "x", ⟨1, 11⟩⟩
    let opened : List Token := [⟨.keyword, "maracuya", ⟨1, 1⟩⟩, ⟨.punctuation, "(", ⟨1, 9⟩⟩]
    let rest : List Token := [⟨.punctuation, ")", ⟨1, 10⟩⟩, ⟨.punctuation, "xD", ⟨1, 12⟩⟩,
      ⟨.keyword, "messirve", ⟨1, 15⟩⟩, ⟨.punctuation, ".", ⟨1, 23⟩⟩, ⟨.punctuation, "v:", ⟨1, 25⟩⟩]
    let e : SyntaxError := .unexpected (.terminal (.word ")")) name
    (FailsAt (opened ++ [name]) 2 e ∧
        (∀ j ≤ 2, (opened ++ name :: rest)[j]? = (opened ++ [name])[j]?) ∧
        FailsAt (opened ++ name :: rest) 2 e) ∧
      ∃ p, ofTokens (opened ++ rest) = .ok p ∧
        ofTokens (opened ++ rest ++ [name]) = .error (.trailing name) := by
  intro name opened rest e
  have fails : FailsAt (opened ++ [name]) 2 e := ⟨rfl, rfl⟩
  have same : ∀ j ≤ 2, (opened ++ name :: rest)[j]? = (opened ++ [name])[j]? := by decide
  obtain ⟨p, read⟩ : ∃ p, ofTokens (opened ++ rest) = .ok p := ⟨_, rfl⟩
  obtain ⟨-, again, -, -⟩ := ofTokens_error_index (opened ++ [name])
  obtain ⟨-, -, -, trailing⟩ := ofTokens_error_index (opened ++ rest)
  exact ⟨⟨fails, same, again 2 e fails (by decide) _ same⟩, p, read, trailing p read name []⟩

end Mamuth
