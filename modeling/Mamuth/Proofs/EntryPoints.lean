-- A program without its entry point. Whatever assignments and functions stand in front, and however
-- many they are, it is the word of the entry point that is missing behind them.
import Mamuth.Proofs.Productions

namespace Mamuth

open Reader

/-! ## Tokens that start nothing -/

/-- A token starts what its own text does. -/
theorem startsIn_lexeme (t : Token) (rest : List Token) :
    StartsIn [.word t.lexeme] (t :: rest) := by
  intro u hu
  cases hu
  exact ⟨_, List.mem_singleton_self _, decide_eq_true rfl⟩

theorem Terminal.apart_of_kind {t : Token} {k : Token.Kind} (hp : t.Producible) (h : t.kind ≠ k) :
    (kind k).apart (word t.lexeme) := by
  have own : (word t.lexeme).kind? = some t.kind := kind?_of_recognizes hp (decide_eq_true rfl)
  have other : (kind k).kind? ≠ (word t.lexeme).kind? := by
    rw [own, kind?, ne_eq, Option.some.injEq]
    exact Ne.symm h
  exact decide_eq_true other

namespace Grammar

theorem entryPoint_stuck {rest : List Token} (h : ∀ t ∈ rest.head?, t.lexeme ≠ "maracuya") :
    entryPoint Terminal.recognizes rest = .error ⟨.terminal (.word "maracuya"), rest⟩ := by
  cases rest with
  | nil => rfl
  | cons t rest =>
    have other : ¬ Terminal.recognizes (.word "maracuya") t := by simpa [Terminal.recognizes] using h
    have stuck : take (.word "maracuya") Terminal.recognizes (t :: rest) =
        .error ⟨.terminal (.word "maracuya"), t :: rest⟩ := if_neg other
    rw [entryPoint, Reader.bind_apply, word, Reader.bind_apply, stuck]

/-- All assignments and all functions are read, and then the entry point is missing. What comes
next starts no function; and no assignment, unless functions stand between. -/
theorem program_stuck (assignments : Derivation (.many (.construct .assignment)))
    (functions : Derivation (.many (.construct .function))) {next : List Terminal}
    {rest : List Token} (hp : ∀ t ∈ assignments.yield ++ (functions.yield ++ rest), t.Producible)
    (starts : StartsIn next rest)
    (noFunction : next.all fun x => [Terminal.word "POV"].all (·.apart x))
    (noAssignment : functions.yield = [] →
      next.all fun x => [Terminal.kind .identifier].all (·.apart x))
    (h : ∀ t ∈ rest.head?, t.lexeme ≠ "maracuya") :
    program Terminal.recognizes (assignments.yield ++ (functions.yield ++ rest)) =
      .error ⟨.terminal (.word "maracuya"), rest⟩ := by
  have behind : ∀ t ∈ functions.yield ++ rest, t.Producible :=
    fun t ht => hp t (List.mem_append_right _ ht)
  obtain ⟨as, first⟩ : ∃ as, many (sees (.kind .identifier)) assignment Terminal.recognizes
      (assignments.yield ++ (functions.yield ++ rest)) = .ok (as, functions.yield ++ rest) := by
    by_cases none : functions.yield = []
    · have reads := Reads.many (n := assignments.yield.length) (looks_sees (.kind .identifier)) rfl
        (noAssignment none) rfl reads_assignment
      rw [none] at hp ⊢
      exact reads.complete assignments (Nat.le_refl _) hp starts
    · have apart : [Terminal.word "POV"].all fun x => [Terminal.kind .identifier].all (·.apart x) := by
        decide
      have reads := Reads.many (n := assignments.yield.length) (looks_sees (.kind .identifier)) rfl
        apart rfl reads_assignment
      exact reads.complete assignments (Nat.le_refl _) hp
        (functions.startsIn_yield.append none rest)
  obtain ⟨fs, second⟩ := (Reads.many (n := functions.yield.length) (looks_sees (.word "POV")) rfl
    noFunction rfl reads_function).complete functions (Nat.le_refl _) behind starts
  rw [program, Reader.bind_of_ok first, Reader.bind_of_ok second, Reader.bind_apply,
    entryPoint_stuck h]

end Grammar

/-- Behind complete assignments and functions that are not followed by the entry point, the error
says that its word is missing: at the end, if there is nothing else, and else at the next token,
unless that starts one more function or, where no function stands before it, one more assignment. -/
theorem Program.ofTokens_without_entryPoint
    (assignments : Derivation (.many (.construct .assignment)))
    (functions : Derivation (.many (.construct .function))) (rest : List Token)
    (hp : ∀ t ∈ assignments.yield ++ functions.yield ++ rest, t.Producible) :
    let tokens := assignments.yield ++ functions.yield ++ rest
    (rest = [] → ofTokens tokens = .error (.endOfInput (.terminal (.word "maracuya"))
      ((tokens.getLast?.map (·.position)).getD ⟨1, 1⟩))) ∧
    ∀ t more, rest = t :: more → t.lexeme ≠ "maracuya" → t.lexeme ≠ "POV" →
      (t.kind = .identifier → functions.yield ≠ []) →
      ofTokens tokens = .error (.unexpected (.terminal (.word "maracuya")) t) := by
  intro tokens
  have shape : tokens = assignments.yield ++ (functions.yield ++ rest) := List.append_assoc _ _ _
  change ∀ t ∈ tokens, t.Producible at hp
  constructor
  · rintro rfl
    have stuck := Grammar.program_stuck assignments functions (shape ▸ hp) (startsIn_nil []) rfl
      (fun _ => rfl) nofun
    rw [ofTokens, read, shape, stuck]
    rfl
  · rintro t more rfl noEntry noFunction noAssignment
    have produced : t.Producible := hp t (by simp [tokens])
    have stuck := Grammar.program_stuck assignments functions (shape ▸ hp) (startsIn_lexeme t more)
      (by simpa [Terminal.apart] using noFunction.symm)
      (fun none => by simpa using Terminal.apart_of_kind produced fun hk => noAssignment hk none)
      (by simpa using noEntry)
    rw [ofTokens, read, shape, stuck]
    rfl

/-- An assignment cannot stand behind a function. -/
theorem Program.ofTokens_without_entryPoint_assignment :
    let tokens : List Token := [⟨.keyword, "POV", ⟨1, 1⟩⟩, ⟨.identifier, "f", ⟨1, 5⟩⟩,
      ⟨.punctuation, "(", ⟨1, 6⟩⟩, ⟨.punctuation, ")", ⟨1, 7⟩⟩, ⟨.punctuation, "xD", ⟨1, 9⟩⟩,
      ⟨.keyword, "messirve", ⟨1, 12⟩⟩, ⟨.punctuation, ".", ⟨1, 20⟩⟩, ⟨.punctuation, "v:", ⟨1, 22⟩⟩]
    let name : Token := ⟨.identifier, "x", ⟨2, 1⟩⟩
    let rest : List Token := [name, ⟨.assignment, "anotado", ⟨2, 3⟩⟩, ⟨.integer, "1", ⟨2, 11⟩⟩]
    (∃ functions : Derivation (.many (.construct .function)), functions.yield = tokens) ∧
      (∀ t ∈ tokens ++ rest, t.Producible) ∧
      ofTokens (tokens ++ rest) = .error (.unexpected (.terminal (.word "maracuya")) name) := by
  intro tokens name rest
  have hp : ∀ t ∈ tokens ++ rest, t.Producible := by
    simp only [tokens, rest, name, List.cons_append, List.nil_append, List.forall_mem_cons]
    exact ⟨⟨_, rfl, rfl⟩, ⟨_, rfl, rfl⟩, ⟨_, rfl, rfl⟩, ⟨_, rfl, rfl⟩, ⟨_, rfl, rfl⟩, ⟨_, rfl, rfl⟩,
      ⟨_, rfl, rfl⟩, ⟨_, rfl, rfl⟩, ⟨_, rfl, rfl⟩, ⟨_, rfl, rfl⟩, ⟨_, rfl, rfl⟩, by simp⟩
  obtain ⟨f, read⟩ : ∃ f, Grammar.function Terminal.recognizes tokens = .ok (f, []) := ⟨_, rfl⟩
  obtain ⟨d, yield, -⟩ := (@Grammar.reads_function 0 []).sound read
  let functions : Derivation (.many (.construct .function)) := .more d .done
  have spelled : functions.yield = tokens := yield.symm
  refine ⟨⟨functions, spelled⟩, hp, ?_⟩
  have error := (ofTokens_without_entryPoint .done functions rest (spelled ▸ hp)).2 name _ rfl
    (by decide) (by decide) fun _ none => List.cons_ne_nil _ _ (spelled.symm.trans none)
  rw [spelled] at error
  exact error

end Mamuth
