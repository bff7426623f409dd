-- Diagnostics point at the source. Whatever stage a compilation fails in, its message is one line,
-- and the place and the words in it are those of tokens of the source.
import Mamuth.Proofs.Messages
import Mamuth.Proofs.Origins
import Mamuth.Proofs.Safety

namespace Mamuth

/-! ## Pointing at tokens -/

/-- The word is what the token at the place spells, and no other token is there. -/
def Token.StandsAt (tokens : List Token) (word : String) (place : Position) : Prop :=
  ∃ t ∈ tokens, t.lexeme = word ∧ t.position = place ∧ ∀ u ∈ tokens, u.position = place → u = t

/-- The fault names a token where it stands. A fault of a comparison has the place of its first
operand, and names the token after it. -/
def Fault.PointsAt (tokens : List Token) : Fault → Prop
  | undeclared word place | notCallable word place | functionArgument word place
  | notNumeric word _ place => Token.StandsAt tokens word place
  | incomparable word _ _ place =>
    ∃ before operand sign other after, tokens = before ++ operand :: sign :: other :: after ∧
      operand.kind.isValue ∧ sign.kind = .comparator ∧ other.kind.isValue ∧
      operand.position = place ∧ sign.lexeme = word
  | malformed _ => False

/-- The error has tokens that are written in the source where it says so. The input ends at the
last token, or at the start if there is none. -/
def CompileError.PointsAt (source : String) : CompileError → Prop
  | lexical pieces => ∀ t ∈ pieces, t.WrittenIn source
  | syntactic (.unexpected _ found) | syntactic (.trailing found) => found.WrittenIn source
  | syntactic (.endOfInput _ place) =>
    ∃ tokens, scan source = .ok tokens ∧
      place = (tokens.getLast?.map (·.position)).getD ⟨1, 1⟩
  | semantic fault =>
    ∃ tokens, scan source = .ok tokens ∧ (∀ t ∈ tokens, t.WrittenIn source) ∧
      fault.PointsAt tokens

/-! ## Faults -/

open Mamuth.Tree in
theorem Program.pointsAt_of_verify {tokens : List Token} {p : Program}
    {e : Typing.Stopped Tree} (once : ∀ t ∈ tokens, ∀ u ∈ tokens, u.position = t.position → u = t)
    (h : ofTokens tokens = .ok p) (he : p.tree.verify = .error e) : e.fault.PointsAt tokens := by
  obtain ⟨u, hu, shows⟩ := shows_of_verify he
  have laid := p.laidOut_tree.subtree hu
  have stands {c : Tree} (hc : c ∈ u.children) (hk : c.root.kind.isLeaf) :
      Token.StandsAt tokens c.root.name c.root.position := by
    obtain ⟨t, ht, lexeme, position⟩ := leaf_token h (child_mem_subtrees hu hc) hk
    exact ⟨t, ht, lexeme, position, fun u hu he => once t ht u hu (he.trans position.symm)⟩
  generalize e.fault = fault at shows ⊢
  cases shows with
  | @undeclared root children use hc named =>
    have identifier : use.root.kind = .identifier := by
      rcases named with named | ⟨hk, first⟩
      · exact named
      · obtain ⟨callee, rest, rfl, hcallee, -⟩ := laid.invocation hk
        cases first
        exact hcallee
    exact stands hc (identifier ▸ rfl)
  | notNumeric hk hc => exact stands hc (laid.operands hk _ hc)
  | notCallable hk =>
    obtain ⟨callee, rest, he, hcallee, -⟩ := laid.invocation hk
    cases he
    exact stands List.mem_cons_self (hcallee ▸ rfl)
  | functionArgument hk hc named => exact stands hc (named ▸ rfl)
  | incomparable hk =>
    obtain ⟨before, s, t, v, after, he, hs, ht, hv, position, lexeme⟩ :=
      comparison_tokens h hu hk rfl
    exact ⟨before, s, t, v, after, he, hs, ht, hv, position, lexeme⟩
  | malformed hk hn => exact hn (laid.shaped _ (self_mem_subtrees _) _ hk)

/-- The word that a fault names is one of a token. -/
theorem Fault.PointsAt.word_mem {tokens : List Token} {f : Fault} (h : f.PointsAt tokens) :
    ∀ word ∈ f.word?, ∃ t ∈ tokens, t.lexeme = word := by
  have stands {word : String} {place : Position} (h : Token.StandsAt tokens word place) :
      ∃ t ∈ tokens, t.lexeme = word := by
    obtain ⟨t, ht, lexeme, -⟩ := h
    exact ⟨t, ht, lexeme⟩
  intro word hw
  cases f with
  | incomparable sign left right place =>
    cases hw
    obtain ⟨before, operand, t, other, after, rfl, -, -, -, -, lexeme⟩ := h
    exact ⟨t, by simp, lexeme⟩
  | malformed shape => cases hw
  | _ =>
    cases hw
    exact stands h

/-! ## Errors -/

theorem Program.found_mem {tokens : List Token} {e : SyntaxError} (h : ofTokens tokens = .error e) :
    ∀ t ∈ e.found?, t ∈ tokens := by
  intro t ht
  obtain ⟨i, hi⟩ := index_of_found h ht
  exact List.mem_of_getElem? hi

/-- Whether a scan succeeds or fails, what it gives is listed. -/
theorem mem_list_of_scan {source : String} {tokens : List Token}
    (h : scan source = .ok tokens ∨ scan source = .error tokens) :
    ∀ t ∈ tokens, t ∈ Token.list source := by
  intro t ht
  rw [scan_eq] at h
  rcases h with h | h <;> split at h <;> cases h <;> exact List.mem_of_mem_filter ht

/-- The message of an error is one line, and what it says of the source is so: the pieces and the
token of an error are written where it places them, the input ends at its last token, and a fault
has the place of the token that it names, or of the first operand of a comparison whose comparator
it names. -/
theorem compile_error_pointsAt {source : String} {e : CompileError}
    (h : (compile source).1 = .error e) : '\n' ∉ e.message.toList ∧ e.PointsAt source := by
  have written {ts : List Token} (hs : scan source = .ok ts ∨ scan source = .error ts) :
      ∀ t ∈ ts, t.WrittenIn source ∧ Text.OneLine t.lexeme := fun t ht =>
    Token.writtenIn_of_mem (mem_list_of_scan hs t ht)
  obtain ⟨pieces, hs, rfl⟩ | ⟨tokens, error, hs, hp, rfl⟩ | ⟨tokens, p, stopped, hs, hp, hv, rfl⟩ :=
    compile_error h
  · exact ⟨CompileError.oneLine_lexical pieces, fun t ht => (written (.inr hs) t ht).1⟩
  · have found := Program.found_mem hp
    have message := SyntaxError.oneLine_message (Program.expected_inGrammar hp)
      fun t ht => (written (.inl hs) t (found t ht)).2
    refine ⟨CompileError.oneLine_syntactic message, ?_⟩
    cases error with
    | unexpected expected t => exact (written (.inl hs) t (found t rfl)).1
    | trailing t => exact (written (.inl hs) t (found t rfl)).1
    | endOfInput expected place => exact ⟨tokens, hs, Program.position_of_endOfInput hp⟩
  · have listed := mem_list_of_scan (.inl hs)
    have points := Program.pointsAt_of_verify
      (fun t ht u hu he => Token.eq_of_position (listed u hu) (listed t ht) he) hp hv
    have words : ∀ word ∈ stopped.fault.word?, Text.OneLine word := by
      intro word hw
      obtain ⟨t, ht, rfl⟩ := points.word_mem word hw
      exact (written (.inl hs) t ht).2
    exact ⟨CompileError.oneLine_semantic (Fault.oneLine_message words), tokens, hs,
      fun t ht => (written (.inl hs) t ht).1, points⟩

/-- On the second line a name is used that nothing declares. -/
theorem compile_unknownName :
    (compile "maracuya() xD\nmessirve x.\nv:").1 =
      .error (.semantic (.undeclared "x" ⟨2, 10⟩)) := by
  let tokens : List Token :=
    [⟨.keyword, "maracuya", ⟨1, 1⟩⟩, ⟨.punctuation, "(", ⟨1, 9⟩⟩, ⟨.punctuation, ")", ⟨1, 10⟩⟩,
      ⟨.punctuation, "xD", ⟨1, 12⟩⟩, ⟨.keyword, "messirve", ⟨2, 1⟩⟩, ⟨.identifier, "x", ⟨2, 10⟩⟩,
      ⟨.punctuation, ".", ⟨2, 11⟩⟩, ⟨.punctuation, "v:", ⟨3, 1⟩⟩]
  let p : Program :=
    ⟨[], [], ⟨⟨1, 1⟩, .last (.return ⟨2, 1⟩ (some (.value (.identifier ⟨"x", ⟨2, 10⟩⟩))))⟩⟩
  have scanned : scan "maracuya() xD\nmessirve x.\nv:" = .ok tokens := rfl
  have read : Program.ofTokens tokens = .ok p := rfl
  have verdict : p.tree.verdict.1 = some (.undeclared "x" ⟨2, 10⟩) := by decide
  obtain ⟨stopped, fails, fault⟩ := Tree.error_of_verdict verdict
  rw [compile_fst, scanned]
  dsimp only
  rw [read]
  dsimp only
  rw [fails]
  exact congrArg (Except.error ∘ CompileError.semantic) fault

/-- The name that the fault is about stands in the second line. -/
theorem compile_error_pointsAt_unknownName :
    let e : CompileError := .semantic (.undeclared "x" ⟨2, 10⟩)
    '\n' ∉ e.message.toList ∧ e.PointsAt "maracuya() xD\nmessirve x.\nv:" :=
  compile_error_pointsAt compile_unknownName

end Mamuth
