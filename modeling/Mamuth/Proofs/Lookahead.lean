-- One token of lookahead is enough. The tables say which terminals a construct can start
-- with and which can come after it. Where the grammar leaves a choice open, the terminals
-- of the two sides have no token in common that scanning can give.
import Mamuth.Proofs.Derivation

namespace Mamuth

/-! ## Tokens from scanning -/

/-- Scanning the text of the token alone gives one token, and that has its kind. -/
def Token.Producible (t : Token) : Prop := ∃ u, scan t.lexeme = .ok [u] ∧ u.kind = t.kind

namespace Terminal

/-- The kind of the tokens that count as the terminal. -/
def kind? : Terminal → Option Token.Kind
  | kind k => some k
  | word text =>
    match scan text with
    | .ok [u] => some u.kind
    | _ => none

theorem kind?_of_recognizes {x : Terminal} {t : Token} (hp : t.Producible)
    (h : x.recognizes t) : x.kind? = some t.kind := by
  cases x with
  | kind k =>
    have same : t.kind = k := of_decide_eq_true h
    rw [kind?, same]
  | word text =>
    have same : t.lexeme = text := of_decide_eq_true h
    obtain ⟨u, hu, hk⟩ := hp
    rw [same] at hu
    rw [kind?, hu, ← hk]

/-- No token counts as both. -/
def apart : Terminal → Terminal → Bool
  | word v, word w => v ≠ w
  | x, y => x.kind? ≠ y.kind?

theorem not_recognizes_of_apart {x y : Terminal} {t : Token} (h : x.apart y)
    (hp : t.Producible) (hy : y.recognizes t) : ¬ x.recognizes t := by
  intro hx
  have same : x.kind? = y.kind? := by
    rw [kind?_of_recognizes hp hx, kind?_of_recognizes hp hy]
  cases x <;> cases y
  case word.word v w =>
    have hv : t.lexeme = v := of_decide_eq_true hx
    have hw : t.lexeme = w := of_decide_eq_true hy
    exact of_decide_eq_true h (hv.symm.trans hw)
  all_goals exact of_decide_eq_true h same

/-- A token that counts as the second counts as the first. -/
def covers : Terminal → Terminal → Bool
  | kind k, y => y.kind? = some k
  | x, y => x = y

theorem recognizes_of_covers {x y : Terminal} {t : Token} (h : x.covers y)
    (hp : t.Producible) (hy : y.recognizes t) : x.recognizes t := by
  cases x with
  | kind k =>
    have hk : y.kind? = some k := of_decide_eq_true h
    rw [kind?_of_recognizes hp hy] at hk
    exact decide_eq_true (Option.some.inj hk)
  | word text =>
    obtain rfl : word text = y := of_decide_eq_true h
    exact hy

end Terminal

/-! ## What comes next -/

/-- The terminals that a construct can start with. -/
def Nonterminal.starts : Nonterminal → List Terminal
  | program => [.kind .identifier, .word "POV", .word "maracuya"]
  | assignment | parameters => [.kind .identifier]
  | invocation => [.word "jutsu"]
  | function => [.word "POV"]
  | main => [.word "maracuya"]
  | arguments | comparison | condition | value =>
    [.kind .identifier, .kind .text, .kind .integer, .kind .float, .kind .boolean]
  | literal => [.kind .text, .kind .integer, .kind .float, .kind .boolean]
  | block | instruction =>
    [.word "whenCuando", .kind .identifier, .word "siuuu", .word "messirve"]
  | loop => [.word "whenCuando"]
  | conditional | ifBranch => [.word "siuuu"]
  | elseBranch => [.word "nimodo"]
  | «return» => [.word "messirve"]
  | math => [.word "#"]

/-- The terminals that can come after a construct. -/
def Nonterminal.follow : Nonterminal → List Terminal
  | program => []
  | assignment =>
    [.kind .identifier, .word "POV", .word "maracuya", .word "whenCuando", .word "siuuu",
      .word "messirve", .word "v:", .word "but"]
  | function => [.word "POV", .word "maracuya"]
  | main => []
  | parameters | arguments | condition => [.word ")"]
  | block => [.word "v:", .word "but"]
  | instruction | loop | conditional | elseBranch | «return» =>
    [.word "whenCuando", .kind .identifier, .word "siuuu", .word "messirve", .word "v:",
      .word "but"]
  | ifBranch =>
    [.word "nimodo", .word "whenCuando", .kind .identifier, .word "siuuu", .word "messirve",
      .word "v:", .word "but"]
  | comparison => [.kind .logicalOperator, .word ")"]
  | value | literal =>
    [.word ".", .word ",", .word ")", .word "#", .kind .operator, .kind .comparator,
      .kind .logicalOperator]
  | invocation | math => [.word "."]

namespace Phrase

/-- Whether a phrase can spell nothing. -/
def nullable : Phrase → Bool
  | terminal _ | construct _ => false
  | seq a b => a.nullable && b.nullable
  | either a b => a.nullable || b.nullable
  | maybe _ | many _ => true

/-- The terminals that a phrase can start with. -/
def starts : Phrase → List Terminal
  | terminal x => [x]
  | construct n => n.starts
  | seq a b => if a.nullable then a.starts ++ b.starts else a.starts
  | either a b => a.starts ++ b.starts
  | maybe a | many a => a.starts

/-- The terminals that come next where a phrase stands before something that starts so. -/
def opens (p : Phrase) (next : List Terminal) : List Terminal :=
  if p.nullable then p.starts ++ next else p.starts

theorem opens_of_not_nullable {p : Phrase} (h : p.nullable = false) (next : List Terminal) :
    p.opens next = p.starts := by
  rw [opens, h]
  rfl

theorem opens_subset {p : Phrase} {xs : List Terminal} (h : p.nullable = false)
    (hs : p.starts ⊆ xs) (next : List Terminal) : p.opens next ⊆ xs := by
  rwa [opens_of_not_nullable h]

/-- Whether one look decides each choice, where the phrase stands before something that starts
so. -/
def decided : Phrase → List Terminal → Bool
  | terminal _, _ => true
  | construct n, next => next.all (· ∈ n.follow)
  | seq a b, next => a.decided (b.opens next) && b.decided next
  | either a b, next =>
    a.decided next && b.decided next && !a.nullable && !b.nullable &&
      a.starts.all fun x => b.starts.all x.apart
  | maybe a, next =>
    a.decided next && !a.nullable && a.starts.all fun x => next.all x.apart
  | many a, next =>
    a.decided (a.starts ++ next) && !a.nullable && a.starts.all fun x => next.all x.apart

end Phrase

namespace Nonterminal

theorem not_nullable (n : Nonterminal) : n.production.nullable = false := by
  cases n <;> rfl

theorem starts_production (n : Nonterminal) : n.production.starts ⊆ n.starts := by
  cases n <;> decide

theorem decided_production (n : Nonterminal) : n.production.decided n.follow := by
  cases n <;> decide

end Nonterminal

/-- The next token, if there is one, counts as one of the terminals. -/
def StartsIn (xs : List Terminal) (ts : List Token) : Prop :=
  ∀ t ∈ ts.head?, ∃ x ∈ xs, x.recognizes t

theorem startsIn_nil (xs : List Terminal) : StartsIn xs [] := nofun

theorem StartsIn.mono {xs ys : List Terminal} {ts : List Token} (h : StartsIn xs ts)
    (hs : xs ⊆ ys) : StartsIn ys ts := by
  intro t ht
  obtain ⟨x, hx, hr⟩ := h t ht
  exact ⟨x, hs hx, hr⟩

theorem StartsIn.append {xs : List Terminal} {ts : List Token} (h : StartsIn xs ts)
    (hn : ts ≠ []) (us : List Token) : StartsIn xs (ts ++ us) := by
  intro t ht
  obtain ⟨u, ts, rfl⟩ := List.exists_cons_of_ne_nil hn
  exact h t ht

/-- Tokens that start in two ways that have nothing in common are no tokens. -/
theorem StartsIn.eq_nil {xs ys : List Terminal} {ts : List Token} (hx : StartsIn xs ts)
    (hy : StartsIn ys ts) (hp : ∀ t ∈ ts, t.Producible)
    (apart : xs.all fun x => ys.all x.apart) : ts = [] := by
  cases ts with
  | nil => rfl
  | cons t ts =>
    obtain ⟨x, hx, hxt⟩ := hx t rfl
    obtain ⟨y, hy, hyt⟩ := hy t rfl
    have := List.all_eq_true.mp (List.all_eq_true.mp apart x hx) y hy
    exact absurd hxt (Terminal.not_recognizes_of_apart this (hp t List.mem_cons_self) hyt)

namespace Derivation

theorem nullable_of_yield {p : Phrase} (d : Derivation p) (h : d.yield = []) :
    p.nullable := by
  induction d with
  | terminal token _ => cases h
  | @construct n d ih =>
    have := ih h
    rw [n.not_nullable] at this
    cases this
  | seq d e ihd ihe =>
    obtain ⟨hd, he⟩ := List.append_eq_nil_iff.mp h
    rw [Phrase.nullable, ihd hd, ihe he]
    rfl
  | one d ih => rw [Phrase.nullable, ih h, Bool.true_or]
  | other d ih => rw [Phrase.nullable, ih h, Bool.or_true]
  | absent | present | done | more => rfl

theorem yield_ne_nil {p : Phrase} (d : Derivation p) (h : p.nullable = false) :
    d.yield ≠ [] := fun hd => by
  rw [d.nullable_of_yield hd] at h
  cases h

theorem startsIn_yield {p : Phrase} (d : Derivation p) : StartsIn p.starts d.yield := by
  induction d with
  | terminal token h =>
    intro t ht
    cases ht
    exact ⟨_, List.mem_singleton_self _, h⟩
  | @construct n d ih => exact ih.mono n.starts_production
  | @seq a b d e ihd ihe =>
    by_cases hd : d.yield = []
    · rw [yield, hd, Phrase.starts, if_pos (d.nullable_of_yield hd)]
      exact ihe.mono (List.subset_append_right _ _)
    · apply (ihd.append hd _).mono
      rw [Phrase.starts]
      split
      · exact List.subset_append_left _ _
      · exact List.Subset.refl _
  | one d ih => exact ih.mono (List.subset_append_left _ _)
  | other d ih => exact ih.mono (List.subset_append_right _ _)
  | absent | done => exact startsIn_nil _
  | present d ih => exact ih
  | more d e ihd ihe =>
    by_cases hd : d.yield = []
    · rw [yield, hd]
      exact ihe
    · exact ihd.append hd _

/-- What comes next, where the derivation stands before other tokens. -/
theorem startsIn_opens {p : Phrase} (d : Derivation p) {next : List Terminal}
    {rest : List Token} (h : StartsIn next rest) : StartsIn (p.opens next) (d.yield ++ rest) := by
  unfold Phrase.opens
  by_cases hd : d.yield = []
  · rw [if_pos (d.nullable_of_yield hd), hd]
    exact h.mono (List.subset_append_right _ _)
  · apply (d.startsIn_yield.append hd rest).mono
    split
    · exact List.subset_append_left _ _
    · exact List.Subset.refl _

/-! ## One derivation -/

/-- A phrase cannot stand where something else has to start. -/
theorem absurd_of_apart {p : Phrase} (d : Derivation p) {xs : List Terminal}
    {rest : List Token} (hn : p.nullable = false)
    (apart : p.starts.all fun x => xs.all x.apart)
    (hp : ∀ t ∈ d.yield ++ rest, t.Producible) (h : StartsIn xs (d.yield ++ rest)) : False := by
  have hd := d.yield_ne_nil hn
  have nil := (d.startsIn_yield.append hd rest).eq_nil h hp apart
  exact hd (List.append_eq_nil_iff.mp nil).1

/-- Two derivations of a phrase that spell the beginnings of the same tokens are the same, if
what follows them can follow the phrase. -/
theorem unique {p : Phrase} (d : Derivation p) {next : List Terminal} (hd : p.decided next)
    (e : Derivation p) {rest rest' : List Token}
    (hp : ∀ t ∈ d.yield ++ rest, t.Producible) (hr : StartsIn next rest)
    (hr' : StartsIn next rest') (h : d.yield ++ rest = e.yield ++ rest') :
    d = e ∧ rest = rest' := by
  induction d generalizing next rest rest' with
  | terminal token _ =>
    cases e
    cases h
    exact ⟨rfl, rfl⟩
  | @construct n d ih =>
    cases e with
    | construct e =>
      have follows : next ⊆ n.follow := fun x hx =>
        of_decide_eq_true (List.all_eq_true.mp hd x hx)
      obtain ⟨rfl, hrest⟩ := ih n.decided_production e hp (hr.mono follows) (hr'.mono follows) h
      exact ⟨rfl, hrest⟩
  | @seq a b d₁ d₂ ih₁ ih₂ =>
    cases e with
    | seq e₁ e₂ =>
      rw [Phrase.decided, Bool.and_eq_true] at hd
      rw [yield, List.append_assoc] at hp h
      rw [yield, List.append_assoc] at h
      obtain ⟨rfl, hrest⟩ := ih₁ hd.1 e₁ hp (d₂.startsIn_opens hr) (e₂.startsIn_opens hr') h
      have hp' : ∀ t ∈ d₂.yield ++ rest, t.Producible :=
        fun t ht => hp t (List.mem_append_right _ ht)
      obtain ⟨rfl, hlast⟩ := ih₂ hd.2 e₂ hp' hr hr' hrest
      exact ⟨rfl, hlast⟩
  | @one a b d ih =>
    simp only [Phrase.decided, Bool.and_eq_true, Bool.not_eq_true'] at hd
    obtain ⟨⟨⟨⟨hd, -⟩, ha⟩, hb⟩, apart⟩ := hd
    cases e with
    | one e =>
      obtain ⟨rfl, hrest⟩ := ih hd e hp hr hr' h
      exact ⟨rfl, hrest⟩
    | other e =>
      have starts : StartsIn b.starts (e.yield ++ rest') :=
        e.startsIn_yield.append (e.yield_ne_nil hb) _
      exact (d.absurd_of_apart ha apart hp (h ▸ starts)).elim
  | @other a b d ih =>
    simp only [Phrase.decided, Bool.and_eq_true, Bool.not_eq_true'] at hd
    obtain ⟨⟨⟨⟨-, hd⟩, ha⟩, hb⟩, apart⟩ := hd
    cases e with
    | one e =>
      have starts : StartsIn b.starts (d.yield ++ rest) :=
        d.startsIn_yield.append (d.yield_ne_nil hb) _
      change d.yield ++ rest = e.yield ++ rest' at h
      change ∀ t ∈ d.yield ++ rest, t.Producible at hp
      rw [h] at starts hp
      exact (e.absurd_of_apart ha apart hp starts).elim
    | other e =>
      obtain ⟨rfl, hrest⟩ := ih hd e hp hr hr' h
      exact ⟨rfl, hrest⟩
  | @absent a =>
    simp only [Phrase.decided, Bool.and_eq_true, Bool.not_eq_true'] at hd
    cases e with
    | absent => exact ⟨rfl, h⟩
    | present e =>
      change rest = e.yield ++ rest' at h
      change ∀ t ∈ rest, t.Producible at hp
      rw [h] at hr hp
      exact (e.absurd_of_apart hd.1.2 hd.2 hp hr).elim
  | @present a d ih =>
    simp only [Phrase.decided, Bool.and_eq_true, Bool.not_eq_true'] at hd
    cases e with
    | absent =>
      have starts : StartsIn next (d.yield ++ rest) := by
        rw [show d.yield ++ rest = rest' from h]
        exact hr'
      exact (d.absurd_of_apart hd.1.2 hd.2 hp starts).elim
    | present e =>
      obtain ⟨rfl, hrest⟩ := ih hd.1.1 e hp hr hr' h
      exact ⟨rfl, hrest⟩
  | @done a =>
    simp only [Phrase.decided, Bool.and_eq_true, Bool.not_eq_true'] at hd
    cases e with
    | done => exact ⟨rfl, h⟩
    | more e₁ e₂ =>
      change rest = (e₁.yield ++ e₂.yield) ++ rest' at h
      change ∀ t ∈ rest, t.Producible at hp
      rw [h, List.append_assoc] at hr hp
      exact (e₁.absurd_of_apart hd.1.2 hd.2 hp hr).elim
  | @more a d₁ d₂ ih₁ ih₂ =>
    have whole := hd
    simp only [Phrase.decided, Bool.and_eq_true, Bool.not_eq_true'] at hd
    rw [yield, List.append_assoc] at hp h
    cases e with
    | done =>
      have starts : StartsIn next (d₁.yield ++ (d₂.yield ++ rest)) := by
        rw [show d₁.yield ++ (d₂.yield ++ rest) = rest' from h]
        exact hr'
      exact (d₁.absurd_of_apart hd.1.2 hd.2 hp starts).elim
    | more e₁ e₂ =>
      rw [yield, List.append_assoc] at h
      obtain ⟨rfl, hrest⟩ := ih₁ hd.1.1 e₁ hp (d₂.startsIn_opens hr) (e₂.startsIn_opens hr') h
      have hp' : ∀ t ∈ d₂.yield ++ rest, t.Producible :=
        fun t ht => hp t (List.mem_append_right _ ht)
      obtain ⟨rfl, hlast⟩ := ih₂ whole e₂ hp' hr hr' hrest
      exact ⟨rfl, hlast⟩

end Derivation

end Mamuth
