-- Syntax errors come neither early nor late. The token of an error is the first after which no
-- other tokens make a program, and the end of the tokens is reported exactly where there are
-- such tokens but some are missing.
import Mamuth.Proofs.ReadAhead
import Mamuth.Proofs.WordLines

namespace Mamuth

/-- Other tokens from scanning can complete the tokens to a program. -/
def Program.Viable (tokens : List Token) : Prop :=
  ∃ more, (∀ t ∈ more, t.Producible) ∧ ∃ p, Program.ofTokens (tokens ++ more) = .ok p

/-- The token that an error is about. -/
def SyntaxError.found? : SyntaxError → Option Token
  | unexpected _ found | trailing found => some found
  | endOfInput _ _ => none

/-! ## Terminals -/

/-- The terminals of the grammar. -/
def Terminal.all : List Terminal :=
  Lexeme.fixedWords.map .word ++
    [.identifier, .integer, .float, .boolean, .text, .operator, .comparator,
      .logicalOperator].map .kind

/-- The terminals in a phrase outside its constructs. -/
def Phrase.terminals : Phrase → List Terminal
  | terminal x => [x]
  | construct _ => []
  | seq a b | either a b => a.terminals ++ b.terminals
  | maybe a | many a => a.terminals

theorem Nonterminal.terminals_production (n : Nonterminal) :
    n.production.terminals ⊆ Terminal.all := by
  cases n <;> decide

theorem Terminal.exists_producible {x : Terminal} (hx : x ∈ all) :
    ∃ t : Token, x.recognizes t ∧ t.Producible := by
  have leaf {k : Token.Kind} (w : String) (h : k.allows w) :
      ∃ t : Token, (kind k).recognizes t ∧ t.Producible :=
    ⟨⟨k, w, .start⟩, decide_eq_true rfl, _, (Lexeme.alone_of_allows h).scan, rfl⟩
  rcases List.mem_append.mp hx with hx | hx
  · obtain ⟨w, hw, rfl⟩ := List.mem_map.mp hx
    obtain ⟨k, hk⟩ := Lexeme.alone_fixed w hw
    exact ⟨⟨k, w, .start⟩, decide_eq_true rfl, _, hk.scan, rfl⟩
  · obtain ⟨k, hk, rfl⟩ := List.mem_map.mp hx
    simp only [List.mem_cons, List.not_mem_nil, or_false] at hk
    rcases hk with rfl | rfl | rfl | rfl | rfl | rfl | rfl | rfl
    · exact leaf "x" (by decide)
    · exact leaf "1" (by decide)
    · exact leaf "1;1" (by decide)
    · exact leaf "SIUA" (by decide)
    · exact leaf "ツツ" (by decide)
    · exact leaf "bobMar" (by decide)
    · exact leaf "panas" (by decide)
    · exact leaf "aja" (by decide)

/-! ## Completions -/

namespace Derivation

/-- From any point on, the rest of the derivation can be another one, of tokens from scanning. -/
def Completes {p : Phrase} (d : Derivation p) : Prop :=
  ∀ taken, taken <+: d.yield → ∃ (e : Derivation p) (rest : List Token),
    e.yield = taken ++ rest ∧ ∀ t ∈ rest, t.Producible

variable {a b : Phrase}

theorem Completes.map {d : Derivation a} (h : d.Completes) (f : Derivation a → Derivation b)
    (hf : ∀ d, (f d).yield = d.yield) : (f d).Completes := by
  intro taken ht
  rw [hf] at ht
  obtain ⟨e, rest, he, hr⟩ := h taken ht
  exact ⟨f e, rest, (hf e).trans he, hr⟩

/-- The point lies in the first part or in the second. -/
theorem Completes.seq {d : Derivation a} {e : Derivation b} (h : d.Completes)
    (h' : e.Completes) : (Derivation.seq d e).Completes := by
  rintro taken ⟨more, ht⟩
  rcases List.append_eq_append_iff.mp ht with ⟨us, hd, -⟩ | ⟨us, rfl, he⟩
  · obtain ⟨d', rest, hd', hr⟩ := h taken ⟨us, hd.symm⟩
    obtain ⟨e', last, he', hl⟩ := h' [] List.nil_prefix
    refine ⟨.seq d' e', rest ++ last, ?_, List.forall_mem_append.mpr ⟨hr, hl⟩⟩
    rw [yield, hd', he', List.nil_append, List.append_assoc]
  · obtain ⟨e', rest, he', hr⟩ := h' us ⟨more, he.symm⟩
    refine ⟨.seq d e', rest, ?_, hr⟩
    rw [yield, he', List.append_assoc]

theorem completes {p : Phrase} (d : Derivation p) (hp : p.terminals ⊆ Terminal.all) :
    d.Completes := by
  have nothing {q : Phrase} {e : Derivation q} (he : e.yield = []) : e.Completes := by
    intro taken ht
    rw [he, List.prefix_nil] at ht
    exact ⟨e, [], by rw [he, ht]; rfl, nofun⟩
  induction d with
  | @terminal x token h =>
    intro taken ht
    cases taken with
    | nil =>
      obtain ⟨t, hx, ht⟩ := Terminal.exists_producible (hp (List.mem_singleton_self x))
      exact ⟨.terminal t hx, [t], rfl, by simpa using ht⟩
    | cons t taken =>
      obtain ⟨rfl, hn⟩ := List.cons_prefix_cons.mp ht
      rw [List.prefix_nil.mp hn]
      exact ⟨.terminal t h, [], rfl, nofun⟩
  | @construct n d ih => exact (ih n.terminals_production).map .construct fun _ => rfl
  | seq d e ihd ihe =>
    exact (ihd (List.append_subset.mp hp).1).seq (ihe (List.append_subset.mp hp).2)
  | one d ih => exact (ih (List.append_subset.mp hp).1).map .one fun _ => rfl
  | other d ih => exact (ih (List.append_subset.mp hp).2).map .other fun _ => rfl
  | absent | done => exact nothing rfl
  | present d ih => exact (ih hp).map .present fun _ => rfl
  | more d e ihd ihe =>
    exact ((ihd hp).seq (ihe hp)).map (fun | .seq d e => .more d e) fun | .seq _ _ => rfl

end Derivation

/-- What begins a program can be completed to one. -/
theorem Phrase.Begins.viable {tokens : List Token}
    (h : (Phrase.construct .program).Begins tokens) (hp : ∀ t ∈ tokens, t.Producible) :
    Program.Viable tokens := by
  obtain ⟨d, hd⟩ := h
  obtain ⟨e, more, he, hm⟩ := d.completes (List.nil_subset _) tokens hd
  have produced : ∀ t ∈ e.yield, t.Producible := by
    rw [he]
    exact List.forall_mem_append.mpr ⟨hp, hm⟩
  refine ⟨more, hm, ?_⟩
  rw [← he]
  exact e.ofTokens_yield produced

/-! ## Where a program stops -/

namespace Program

theorem Viable.of_append {tokens more : List Token} (h : Viable (tokens ++ more))
    (hp : ∀ t ∈ more, t.Producible) : Viable tokens := by
  obtain ⟨rest, hr, p, h⟩ := h
  rw [List.append_assoc] at h
  exact ⟨more ++ rest, List.forall_mem_append.mpr ⟨hp, hr⟩, p, h⟩

/-- Up to its token an error comes from the beginning of a program, and it stays whatever
tokens come after that one. -/
theorem of_ofTokens_error {tokens : List Token} {e : SyntaxError}
    (h : ofTokens tokens = .error e) :
    ∃ before rest, tokens = before ++ rest ∧ (Phrase.construct .program).Begins before ∧
      rest.head? = e.found? ∧ ∀ rest', rest'.head? = rest.head? →
        ofTokens (before ++ rest') = .error e := by
  have reads : Reads tokens.length Grammar.program _ _ _ := Grammar.reads_program
  have agree : AgreeOn Terminal.recognizes Terminal.recognizes tokens := fun _ _ _ => rfl
  obtain ⟨o, before, rest, rfl, -, hr, more⟩ :=
    Alike.unbounded (fun n m => Grammar.alike_program (n := n) (m := m)) agree
  refine ⟨before, rest, rfl, ?_⟩
  rw [ofTokens, read, hr] at h
  cases o with
  | ok p =>
    obtain ⟨d, hd, -⟩ := reads.sound hr
    have begins : (Phrase.construct .program).Begins before :=
      ⟨d, List.append_cancel_right hd ▸ List.prefix_rfl⟩
    cases rest with
    | nil => cases h
    | cons t rest =>
      cases h
      refine ⟨begins, rfl, fun rest' hh => ?_⟩
      have hr' := more rest' hh
      obtain ⟨rest', rfl⟩ := List.head?_eq_some_iff.mp hh
      rw [ofTokens, read, hr']
      rfl
  | error expected =>
    obtain ⟨taken, ht, begins⟩ := reads.begins hr
    obtain rfl := List.append_cancel_right ht
    cases h
    cases rest with
    | nil =>
      refine ⟨begins, rfl, fun rest' hh => ?_⟩
      rw [List.head?_eq_none_iff.mp hh, ofTokens, read, hr]
      rfl
    | cons t rest =>
      refine ⟨begins, rfl, fun rest' hh => ?_⟩
      have hr' := more rest' hh
      obtain ⟨rest', rfl⟩ := List.head?_eq_some_iff.mp hh
      rw [ofTokens, read, hr']
      rfl

theorem of_found {tokens : List Token} {e : SyntaxError} {t : Token}
    (hp : ∀ t ∈ tokens, t.Producible) (h : ofTokens tokens = .error e) (ht : e.found? = some t) :
    ∃ before after, tokens = before ++ t :: after ∧ Viable before ∧
      ¬ Viable (before ++ [t]) := by
  obtain ⟨before, rest, rfl, begins, hh, same⟩ := of_ofTokens_error h
  rw [ht] at hh
  obtain ⟨after, rfl⟩ := List.head?_eq_some_iff.mp hh
  refine ⟨before, after, rfl, begins.viable (List.forall_mem_append.mp hp).1, ?_⟩
  rintro ⟨more, -, p, hread⟩
  rw [List.append_assoc, List.singleton_append, same (t :: more) rfl] at hread
  cases hread

theorem of_endOfInput {tokens : List Token} {expected : Expected} {position : Position}
    (hp : ∀ t ∈ tokens, t.Producible)
    (h : ofTokens tokens = .error (.endOfInput expected position)) : Viable tokens := by
  obtain ⟨before, rest, rfl, begins, hh, -⟩ := of_ofTokens_error h
  obtain rfl := List.head?_eq_none_iff.mp hh
  rw [List.append_nil] at hp ⊢
  exact begins.viable hp

theorem index_of_found {tokens : List Token} {e : SyntaxError} {t : Token}
    (h : ofTokens tokens = .error e) (ht : e.found? = some t) :
    ∃ i : Nat, tokens[i]? = some t := by
  obtain ⟨before, rest, rfl, -, hh, -⟩ := of_ofTokens_error h
  obtain ⟨rest, rfl⟩ := List.head?_eq_some_iff.mp (hh.trans ht)
  exact ⟨before.length, by simp⟩

theorem position_of_endOfInput {tokens : List Token} {expected : Expected} {position : Position}
    (h : ofTokens tokens = .error (.endOfInput expected position)) :
    position = (tokens.getLast?.map (·.position)).getD ⟨1, 1⟩ := by
  unfold ofTokens read at h
  split at h
  · cases h
  · cases h
  · rename_i stuck hs
    obtain ⟨_, _ | _⟩ := stuck
    · cases h
      rfl
    · cases h

end Program

/-- The token of a syntax error is the first one with which the tokens can no longer be
completed to a program. The end of the tokens is an error exactly where they are no program but
can be completed to one; its place is that of the last token. -/
theorem Program.ofTokens_error_earliest (tokens : List Token)
    (hp : ∀ t ∈ tokens, t.Producible) :
    (∀ e t, ofTokens tokens = .error e → e.found? = some t →
      ∃ before after, tokens = before ++ t :: after ∧ Viable before ∧ ¬ Viable (before ++ [t])) ∧
    ((∃ expected position, ofTokens tokens = .error (.endOfInput expected position)) ↔
      (¬ ∃ p, ofTokens tokens = .ok p) ∧ Viable tokens) ∧
    ∀ expected position, ofTokens tokens = .error (.endOfInput expected position) →
      position = (tokens.getLast?.map (·.position)).getD ⟨1, 1⟩ := by
  refine ⟨fun e t => of_found hp, ⟨?_, ?_⟩, fun _ _ => position_of_endOfInput⟩
  · rintro ⟨expected, position, h⟩
    refine ⟨?_, of_endOfInput hp h⟩
    rintro ⟨p, hread⟩
    rw [h] at hread
    cases hread
  · rintro ⟨rejected, viable⟩
    cases h : ofTokens tokens with
    | ok p => exact absurd ⟨p, h⟩ rejected
    | error e =>
      cases hf : e.found? with
      | some t =>
        obtain ⟨before, after, rfl, -, hopeless⟩ := of_found hp h hf
        rw [← List.singleton_append, ← List.append_assoc] at viable hp
        exact absurd (viable.of_append (List.forall_mem_append.mp hp).2) hopeless
      | none =>
        cases e with
        | endOfInput expected position => exact ⟨expected, position, rfl⟩
        | unexpected | trailing => cases hf

/-- A second bracket where the first one should be closed. -/
theorem Program.ofTokens_error_earliest_bracket :
    let bracket : Token := ⟨.punctuation, "(", ⟨1, 10⟩⟩
    let tokens : List Token :=
      [⟨.keyword, "maracuya", ⟨1, 1⟩⟩, ⟨.punctuation, "(", ⟨1, 9⟩⟩, bracket]
    (∀ t ∈ tokens, t.Producible) ∧
      ofTokens tokens = .error (.unexpected (.terminal (.word ")")) bracket) ∧
      ∃ before after, tokens = before ++ bracket :: after ∧ Viable before ∧
        ¬ Viable (before ++ [bracket]) := by
  intro bracket tokens
  have hp : ∀ t ∈ tokens, t.Producible := by
    simp only [tokens, bracket, List.forall_mem_cons]
    exact ⟨⟨_, rfl, rfl⟩, ⟨_, rfl, rfl⟩, ⟨_, rfl, rfl⟩, by simp⟩
  have error : ofTokens tokens = .error (.unexpected (.terminal (.word ")")) bracket) := rfl
  exact ⟨hp, error, (ofTokens_error_earliest tokens hp).1 _ bracket error rfl⟩

end Mamuth
