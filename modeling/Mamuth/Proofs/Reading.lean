-- The readers and the grammar. A reader takes exactly what its phrase can spell: what it
-- takes has a derivation, and where there is a derivation it does not get stuck. Where it gets
-- stuck, what it took by then begins a derivation. One law for each way to put readers
-- together gives the law of each construct.
import Mamuth.Proofs.Lookahead
import Mamuth.SyntaxError

namespace Mamuth

open Reader

/-! ## Readers of phrases -/

/-- Some derivation of the phrase starts with the tokens. -/
def Phrase.Begins (p : Phrase) (taken : List Token) : Prop :=
  ∃ d : Derivation p, taken <+: d.yield

theorem Phrase.begins_nil {p : Phrase} (d : Derivation p) : p.Begins [] := ⟨d, List.nil_prefix⟩

theorem Phrase.Begins.seq {a b : Phrase} {taken : List Token} (h : a.Begins taken)
    (e : Derivation b) : (Phrase.seq a b).Begins taken := by
  obtain ⟨d, hd⟩ := h
  exact ⟨.seq d e, hd.trans (List.prefix_append d.yield e.yield)⟩

/-- What begins the second part begins the whole after the first part. -/
theorem Phrase.Begins.after {a b : Phrase} {taken : List Token} (h : b.Begins taken)
    (d : Derivation a) : (Phrase.seq a b).Begins (d.yield ++ taken) := by
  obtain ⟨e, he⟩ := h
  exact ⟨.seq d e, (List.prefix_append_right_inj d.yield).mpr he⟩

theorem Phrase.Begins.map {a b : Phrase} {taken : List Token} (h : a.Begins taken)
    (f : Derivation a → Derivation b) (hf : ∀ d, (f d).yield = d.yield) : b.Begins taken := by
  obtain ⟨d, hd⟩ := h
  exact ⟨f d, by rwa [hf]⟩

/-- The reader reads the phrase, in front of what starts with `next`: whatever it takes has a
derivation that fits the result, and it takes every derivation of at most `n` tokens. What it
takes before it gets stuck begins a derivation. -/
structure Reads (n : Nat) (reader : Reader α) (p : Phrase) (next : List Terminal)
    (Fits : α → Derivation p → Prop) : Prop where
  sound : ∀ {ts x rest}, reader Terminal.recognizes ts = .ok (x, rest) →
    ∃ d : Derivation p, ts = d.yield ++ rest ∧ Fits x d
  complete : ∀ (d : Derivation p) {rest}, d.yield.length ≤ n →
    (∀ t ∈ d.yield ++ rest, t.Producible) → StartsIn next rest →
    ∃ x, reader Terminal.recognizes (d.yield ++ rest) = .ok (x, rest)
  inhabited : ∃ x d, Fits x d
  begins : ∀ {ts expected rest}, reader Terminal.recognizes ts = .error ⟨expected, rest⟩ →
    ∃ taken, ts = taken ++ rest ∧ p.Begins taken

theorem Reader.bind_apply (r : Reader α) (f : α → Reader β) (recognizes : Recognizer)
    (ts : List Token) :
    (r >>= f) recognizes ts = match r recognizes ts with
      | .ok (x, rest) => f x recognizes rest
      | .error stuck => .error stuck := by
  show (r recognizes ts >>= _) = _
  cases r recognizes ts <;> rfl

theorem Reader.bind_of_ok {r : Reader α} {recognizes : Recognizer} {ts rest : List Token} {x : α}
    (h : r recognizes ts = .ok (x, rest)) (f : α → Reader β) :
    (r >>= f) recognizes ts = f x recognizes rest := by
  rw [Reader.bind_apply, h]

theorem Reader.bind_eq_ok {r : Reader α} {f : α → Reader β} {recognizes : Recognizer}
    {ts rest : List Token} {y : β} (h : (r >>= f) recognizes ts = .ok (y, rest)) :
    ∃ x mid, r recognizes ts = .ok (x, mid) ∧ f x recognizes mid = .ok (y, rest) := by
  rw [Reader.bind_apply] at h
  cases hr : r recognizes ts with
  | ok p =>
    obtain ⟨x, mid⟩ := p
    rw [hr] at h
    exact ⟨x, mid, rfl, h⟩
  | error stuck =>
    rw [hr] at h
    cases h

theorem Reader.bind_eq_error {r : Reader α} {f : α → Reader β} {recognizes : Recognizer}
    {ts : List Token} {stuck : Stuck} (h : (r >>= f) recognizes ts = .error stuck) :
    r recognizes ts = .error stuck ∨
      ∃ x mid, r recognizes ts = .ok (x, mid) ∧ f x recognizes mid = .error stuck := by
  rw [Reader.bind_apply] at h
  cases hr : r recognizes ts with
  | ok p =>
    obtain ⟨x, mid⟩ := p
    rw [hr] at h
    exact Or.inr ⟨x, mid, rfl, h⟩
  | error stuck' =>
    rw [hr] at h
    cases h
    exact Or.inl rfl

section

variable {n : Nat} {p a b : Phrase} {next : List Terminal}

/-! ### Changing the law of a reader -/

theorem Reads.mono {r : Reader α} {m : Nat} {next' : List Terminal}
    {Fits Fits' : α → Derivation p → Prop} (h : Reads n r p next Fits) (hm : m ≤ n)
    (hn : next' ⊆ next) (hf : ∀ x d, Fits x d → Fits' x d) : Reads m r p next' Fits' := by
  refine ⟨fun hr => ?_, fun d _ hd hp hs => h.complete d (Nat.le_trans hd hm) hp (hs.mono hn),
    ?_, h.begins⟩
  · obtain ⟨d, hd, hx⟩ := h.sound hr
    exact ⟨d, hd, hf _ _ hx⟩
  · obtain ⟨x, d, hx⟩ := h.inhabited
    exact ⟨x, d, hf x d hx⟩

theorem Reads.narrow {r : Reader α} {next' : List Terminal} {Fits : α → Derivation p → Prop}
    (h : Reads n r p next Fits) (hn : next' ⊆ next) : Reads n r p next' Fits :=
  h.mono (Nat.le_refl n) hn fun _ _ hf => hf

/-- Phrases with the same yields have the same readers. -/
theorem Reads.recast {r : Reader α} {q : Phrase} {Fits : α → Derivation q → Prop}
    (f : Derivation p → Derivation q) (g : Derivation q → Derivation p)
    (hf : ∀ d, (f d).yield = d.yield) (hg : ∀ d, (g d).yield = d.yield)
    (h : Reads n r p next fun x d => Fits x (f d)) : Reads n r q next Fits := by
  refine ⟨fun hr => ?_, fun d _ hd hp hs => ?_, ?_, fun hr => ?_⟩
  · obtain ⟨d, hd, hx⟩ := h.sound hr
    exact ⟨f d, by rw [hf, hd], hx⟩
  · rw [← hg d] at hd hp ⊢
    exact h.complete (g d) hd hp hs
  · obtain ⟨x, d, hx⟩ := h.inhabited
    exact ⟨x, f d, hx⟩
  · obtain ⟨taken, ht, begins⟩ := h.begins hr
    exact ⟨taken, ht, begins.map f hf⟩

theorem Reads.construct {r : Reader α} {m : Nonterminal}
    {Fits : α → Derivation (.construct m) → Prop}
    (h : Reads n r m.production next fun x d => Fits x (.construct d)) :
    Reads n r (.construct m) next Fits :=
  h.recast .construct (fun | .construct d => d) (fun _ => rfl) fun | .construct _ => rfl

/-! ### Phrases with the same yields -/

namespace Derivation

variable {c e : Phrase}

/-- With the first two alternatives the other way round. -/
def exchange : Derivation (.either a (.either b c)) → Derivation (.either b (.either a c))
  | one d => other (one d)
  | other (one d) => one d
  | other (other d) => other (other d)

/-- With the last of four alternatives first. -/
def rotate : Derivation (.either a (.either b (.either c e))) →
    Derivation (.either e (.either a (.either b c)))
  | one d => other (one d)
  | other (one d) => other (other (one d))
  | other (other (one d)) => other (other (other d))
  | other (other (other d)) => one d

def unrotate : Derivation (.either e (.either a (.either b c))) →
    Derivation (.either a (.either b (.either c e)))
  | one d => other (other (other d))
  | other (one d) => one d
  | other (other (one d)) => other (one d)
  | other (other (other d)) => other (other (one d))

/-- One item or more are any number of items, if there are some. -/
def listed : Derivation (.maybe (.some a)) → Derivation (.many a)
  | absent => done
  | present (seq d e) => more d e

def unlisted : Derivation (.many a) → Derivation (.maybe (.some a))
  | done => absent
  | more d e => present (seq d e)

theorem yield_listed : ∀ d : Derivation (.maybe (.some a)), d.listed.yield = d.yield
  | absent | present (seq _ _) => rfl

theorem trees_listed : ∀ d : Derivation (.maybe (.some a)), d.listed.trees = d.trees
  | absent | present (seq _ _) => rfl

theorem yield_unlisted : ∀ d : Derivation (.many a), d.unlisted.yield = d.yield
  | done | more _ _ => rfl

/-- With the option at the last of three alternatives put before all of them. -/
def hoist : Derivation (.either a (.either b (.maybe c))) →
    Derivation (.maybe (.either a (.either b c)))
  | one d => present (one d)
  | other (one d) => present (other (one d))
  | other (other (present d)) => present (other (other d))
  | other (other absent) => absent

def lower : Derivation (.maybe (.either a (.either b c))) →
    Derivation (.either a (.either b (.maybe c)))
  | present (one d) => one d
  | present (other (one d)) => other (one d)
  | present (other (other d)) => other (other (present d))
  | absent => other (other absent)

theorem yield_hoist : ∀ d : Derivation (.either a (.either b (.maybe c))),
    d.hoist.yield = d.yield
  | one _ | other (one _) | other (other (present _)) | other (other absent) => rfl

theorem yield_lower : ∀ d : Derivation (.maybe (.either a (.either b c))),
    d.lower.yield = d.yield
  | present (one _) | present (other (one _)) | present (other (other _)) | absent => rfl

theorem yield_exchange : ∀ d : Derivation (.either a (.either b c)), d.exchange.yield = d.yield
  | one _ | other (one _) | other (other _) => rfl

theorem yield_rotate : ∀ d : Derivation (.either a (.either b (.either c e))),
    d.rotate.yield = d.yield
  | one _ | other (one _) | other (other (one _)) | other (other (other _)) => rfl

theorem yield_unrotate : ∀ d : Derivation (.either e (.either a (.either b c))),
    d.unrotate.yield = d.yield
  | one _ | other (one _) | other (other (one _)) | other (other (other _)) => rfl

end Derivation

/-! ### One reader after another -/

theorem Reads.map {r : Reader α} {f : α → β} {First : α → Derivation p → Prop}
    {Fits : β → Derivation p → Prop} (h : Reads n r p next First)
    (hf : ∀ x d, First x d → Fits (f x) d) : Reads n (do return f (← r)) p next Fits := by
  refine ⟨fun hr => ?_, fun d _ hd hp hs => ?_, ?_, fun hr => ?_⟩
  · obtain ⟨x, mid, hx, hy⟩ := Reader.bind_eq_ok hr
    cases hy
    obtain ⟨d, hd, first⟩ := h.sound hx
    exact ⟨d, hd, hf x d first⟩
  · obtain ⟨x, hx⟩ := h.complete d hd hp hs
    exact ⟨f x, Reader.bind_of_ok hx _⟩
  · obtain ⟨x, d, first⟩ := h.inhabited
    exact ⟨f x, d, hf x d first⟩
  · rcases Reader.bind_eq_error hr with hr | ⟨x, mid, -, hr⟩
    · exact h.begins hr
    · cases hr

/-- The second part has as many tokens as the first one leaves. -/
theorem Reads.andThen {r : Reader α} {f : α → Reader β} {m : Nat}
    {First : α → Derivation a → Prop} {Fits : β → Derivation (.seq a b) → Prop}
    (h : Reads n r a (b.opens next) First) (hm : ∀ d : Derivation a, n ≤ d.yield.length + m)
    (hf : ∀ x d, First x d → Reads m (f x) b next fun y e => Fits y (.seq d e)) :
    Reads n (r >>= f) (.seq a b) next Fits := by
  obtain ⟨x₀, d₀, first₀⟩ := h.inhabited
  obtain ⟨y₀, e₀, fits₀⟩ := (hf x₀ d₀ first₀).inhabited
  refine ⟨fun hr => ?_, fun d rest hd hp hs => ?_, ⟨y₀, .seq d₀ e₀, fits₀⟩, fun hr => ?_⟩
  · obtain ⟨x, mid, hx, hy⟩ := Reader.bind_eq_ok hr
    obtain ⟨d, rfl, first⟩ := h.sound hx
    obtain ⟨e, rfl, fits⟩ := (hf x d first).sound hy
    exact ⟨.seq d e, (List.append_assoc _ _ _).symm, fits⟩
  · cases d with
    | seq d e =>
      have left := hm d
      rw [Derivation.yield, List.append_assoc] at hp ⊢
      rw [Derivation.yield, List.length_append] at hd
      obtain ⟨x, hx⟩ := h.complete d (by omega) hp (e.startsIn_opens hs)
      obtain ⟨d', -, first⟩ := h.sound hx
      rw [Reader.bind_of_ok hx]
      exact (hf x d' first).complete e (by omega)
        (fun t ht => hp t (List.mem_append_right _ ht)) hs
  · rcases Reader.bind_eq_error hr with he | ⟨x, mid, hx, he⟩
    · obtain ⟨taken, ht, begins⟩ := h.begins he
      exact ⟨taken, ht, begins.seq e₀⟩
    · obtain ⟨d, rfl, first⟩ := h.sound hx
      obtain ⟨taken, rfl, begins⟩ := (hf x d first).begins he
      exact ⟨d.yield ++ taken, (List.append_assoc _ _ _).symm, begins.after d⟩

theorem Reads.bind {r : Reader α} {f : α → Reader β} {First : α → Derivation a → Prop}
    {Fits : β → Derivation (.seq a b) → Prop} (h : Reads n r a (b.opens next) First)
    (hf : ∀ x d, First x d → Reads n (f x) b next fun y e => Fits y (.seq d e)) :
    Reads n (r >>= f) (.seq a b) next Fits :=
  h.andThen (fun _ => Nat.le_add_left _ _) hf

/-- What comes after a part that takes a token has fewer tokens. -/
theorem Reads.after {r : Reader α} {f : α → Reader β} {First : α → Derivation a → Prop}
    {Fits : β → Derivation (.seq a b) → Prop} (hn : a.nullable = false)
    (h : Reads (n + 1) r a (b.opens next) First)
    (hf : ∀ x d, First x d → Reads n (f x) b next fun y e => Fits y (.seq d e)) :
    Reads (n + 1) (r >>= f) (.seq a b) next Fits := by
  refine h.andThen (fun d => ?_) hf
  have := List.length_pos_iff.mpr (d.yield_ne_nil hn)
  omega

/-! ### Single tokens -/

/-- A derivation that starts at a place and stands for these trees. -/
structure Derivation.Stands (d : Derivation p) (position : Position) (trees : List Tree) :
    Prop where
  start : d.start? = some position
  trees : d.trees = trees

theorem Derivation.start?_seq_or (d : Derivation a) (e : Derivation b) :
    (Derivation.seq d e).start? = d.start?.or e.start? := by
  unfold start?
  rw [yield, List.head?_append]
  cases d.yield.head? <;> rfl

/-- What starts with a token starts where it does. -/
theorem Derivation.start?_seq {d : Derivation a} {position : Position}
    (h : d.start? = some position) (e : Derivation b) :
    (Derivation.seq d e).start? = some position := by
  rw [start?_seq_or, h, Option.some_or]

theorem Terminal.exists_recognizes (x : Terminal) : ∃ t, x.recognizes t := by
  cases x with
  | word text => exact ⟨⟨.identifier, text, .start⟩, decide_eq_true rfl⟩
  | kind k => exact ⟨⟨k, "", .start⟩, decide_eq_true rfl⟩

theorem reads_take (x : Terminal) :
    Reads n (take x) (.terminal x) next fun t d => ∃ h, d = .terminal t h := by
  obtain ⟨t₀, h₀⟩ := x.exists_recognizes
  refine ⟨fun {ts t rest} hr => ?_, fun d rest _ _ _ => ?_, ⟨t₀, .terminal t₀ h₀, h₀, rfl⟩,
    fun {ts expected rest} hr => ?_⟩
  · cases ts with
    | nil => cases hr
    | cons u us =>
      by_cases h : x.recognizes u
      · rw [take, if_pos h] at hr
        cases hr
        exact ⟨.terminal t h, rfl, h, rfl⟩
      · rw [take, if_neg h] at hr
        cases hr
  · cases d with
    | terminal t h => exact ⟨t, if_pos h⟩
  · have nothing : ts = rest := by
      cases ts with
      | nil =>
        cases hr
        rfl
      | cons u us =>
        rw [take] at hr
        split at hr <;> cases hr
        rfl
    exact ⟨[], nothing, Phrase.begins_nil (.terminal t₀ h₀)⟩

theorem reads_word (text : String) :
    Reads n (word text) (.word text) next fun at' d => d.Stands at' [] := by
  apply (reads_take _).map
  rintro t _ ⟨h, rfl⟩
  exact ⟨rfl, rfl⟩

theorem reads_leaf {k : Token.Kind} {kind : Node.Kind}
    (hk : (Terminal.kind k).node? = some kind) :
    Reads n (Grammar.leaf k) (.kind k) next fun l d => d.Stands l.position [l.tree kind] := by
  apply (reads_take _).map
  rintro t _ ⟨h, rfl⟩
  exact ⟨rfl, Derivation.trees_terminal hk t h⟩

/-! ### Choices -/

/-- A reader that looks whether the next token counts as one of the terminals. -/
def Looks (sees : Reader Bool) (xs : List Terminal) : Prop :=
  ∀ ts, sees Terminal.recognizes ts =
    .ok (ts.head?.any fun t => xs.any fun x => x.recognizes t, ts)

theorem looks_sees (x : Terminal) : Looks (sees x) [x] := by
  intro ts
  cases ts with
  | nil => rfl
  | cons t ts => simp [sees]

theorem Looks.yes {sees : Reader Bool} {xs ys : List Terminal} {ts : List Token}
    (h : Looks sees xs) (hp : ∀ t ∈ ts, t.Producible) (hs : StartsIn ys ts) (hn : ts ≠ [])
    (covers : ys.all fun y => xs.any fun x => x.covers y) :
    sees Terminal.recognizes ts = .ok (true, ts) := by
  obtain ⟨t, ts, rfl⟩ := List.exists_cons_of_ne_nil hn
  obtain ⟨y, hy, hyt⟩ := hs t rfl
  obtain ⟨x, hx, hxy⟩ := List.any_eq_true.mp (List.all_eq_true.mp covers y hy)
  have counts := Terminal.recognizes_of_covers hxy (hp t List.mem_cons_self) hyt
  have : xs.any (fun x => x.recognizes t) := List.any_eq_true.mpr ⟨x, hx, counts⟩
  rw [h, List.head?_cons, Option.any_some, this]

theorem Looks.no {sees : Reader Bool} {xs ys : List Terminal} {ts : List Token}
    (h : Looks sees xs) (hp : ∀ t ∈ ts, t.Producible) (hs : StartsIn ys ts)
    (apart : ys.all fun y => xs.all fun x => x.apart y) :
    sees Terminal.recognizes ts = .ok (false, ts) := by
  rw [h]
  cases ts with
  | nil => rfl
  | cons t ts =>
    obtain ⟨y, hy, hyt⟩ := hs t rfl
    have none : ¬ xs.any fun x => x.recognizes t := by
      intro hx
      obtain ⟨x, hx, hxt⟩ := List.any_eq_true.mp hx
      have := List.all_eq_true.mp (List.all_eq_true.mp apart y hy) x hx
      exact Terminal.not_recognizes_of_apart this (hp t List.mem_cons_self) hyt hxt
    rw [List.head?_cons, Option.any_some, Bool.eq_false_iff.mpr none]

section

variable {sees : Reader Bool} {xs : List Terminal} (looks : Looks sees xs)
include looks

/-- Looking takes nothing. -/
theorem Looks.sound {r r' : Reader α} {ts rest : List Token} {x : α}
    (h : (do if ← sees then r else r') Terminal.recognizes ts = .ok (x, rest)) :
    r Terminal.recognizes ts = .ok (x, rest) ∨ r' Terminal.recognizes ts = .ok (x, rest) := by
  obtain ⟨seen, mid, hs, h⟩ := Reader.bind_eq_ok h
  rw [looks ts] at hs
  cases hs
  split at h
  · exact Or.inl h
  · exact Or.inr h

theorem Looks.stuck {r r' : Reader α} {ts : List Token} {stuck : Stuck}
    (h : (do if ← sees then r else r') Terminal.recognizes ts = .error stuck) :
    r Terminal.recognizes ts = .error stuck ∨ r' Terminal.recognizes ts = .error stuck := by
  rw [Reader.bind_of_ok (looks ts)] at h
  split at h
  · exact Or.inl h
  · exact Or.inr h

/-- Where the terminals cover what a phrase starts with, the look succeeds. -/
theorem Looks.enters {r r' : Reader α} (d : Derivation a) {rest : List Token}
    (covers : a.starts.all fun y => xs.any fun x => x.covers y) (hn : a.nullable = false)
    (hp : ∀ t ∈ d.yield ++ rest, t.Producible) :
    (do if ← sees then r else r') Terminal.recognizes (d.yield ++ rest) =
      r Terminal.recognizes (d.yield ++ rest) := by
  have hd := d.yield_ne_nil hn
  have starts := d.startsIn_yield.append hd rest
  have hne : d.yield ++ rest ≠ [] := fun h => hd (List.append_eq_nil_iff.mp h).1
  exact Reader.bind_of_ok (looks.yes hp starts hne covers) _

theorem Looks.passes {r r' : Reader α} {ys : List Terminal} {ts : List Token}
    (apart : ys.all fun y => xs.all fun x => x.apart y) (hp : ∀ t ∈ ts, t.Producible)
    (hs : StartsIn ys ts) :
    (do if ← sees then r else r') Terminal.recognizes ts = r' Terminal.recognizes ts :=
  Reader.bind_of_ok (looks.no hp hs apart) _

theorem Reads.choose {r r' : Reader α} {Fits : α → Derivation (.either a b) → Prop}
    (covers : a.starts.all fun y => xs.any fun x => x.covers y)
    (apart : (b.opens next).all fun y => xs.all fun x => x.apart y) (hn : a.nullable = false)
    (h : Reads n r a next fun x d => Fits x (.one d))
    (h' : Reads n r' b next fun x d => Fits x (.other d)) :
    Reads n (do if ← sees then r else r') (.either a b) next Fits := by
  refine ⟨fun hr => ?_, fun d rest hd hp hs => ?_, ?_, fun hr => ?_⟩
  · rcases looks.sound hr with hr | hr
    · obtain ⟨d, hd, hx⟩ := h.sound hr
      exact ⟨.one d, hd, hx⟩
    · obtain ⟨d, hd, hx⟩ := h'.sound hr
      exact ⟨.other d, hd, hx⟩
  · cases d with
    | one d =>
      rw [Derivation.yield] at hd hp ⊢
      rw [looks.enters d covers hn hp]
      exact h.complete d hd hp hs
    | other d =>
      rw [Derivation.yield] at hd hp ⊢
      rw [looks.passes apart hp (d.startsIn_opens hs)]
      exact h'.complete d hd hp hs
  · obtain ⟨x, d, hx⟩ := h.inhabited
    exact ⟨x, .one d, hx⟩
  · rcases looks.stuck hr with hr | hr
    · obtain ⟨taken, ht, begins⟩ := h.begins hr
      exact ⟨taken, ht, begins.map .one fun _ => rfl⟩
    · obtain ⟨taken, ht, begins⟩ := h'.begins hr
      exact ⟨taken, ht, begins.map .other fun _ => rfl⟩

theorem Reads.optional {r : Reader α} {x₀ : α} {Fits : α → Derivation (.maybe a) → Prop}
    (covers : a.starts.all fun y => xs.any fun x => x.covers y)
    (apart : next.all fun y => xs.all fun x => x.apart y) (hn : a.nullable = false)
    (h : Reads n r a next fun x d => Fits x (.present d)) (h' : Fits x₀ .absent) :
    Reads n (do if ← sees then r else return x₀) (.maybe a) next Fits := by
  refine ⟨fun hr => ?_, fun d rest hd hp hs => ?_, ⟨x₀, .absent, h'⟩, fun hr => ?_⟩
  · rcases looks.sound hr with hr | hr
    · obtain ⟨d, hd, hx⟩ := h.sound hr
      exact ⟨.present d, hd, hx⟩
    · cases hr
      exact ⟨.absent, rfl, h'⟩
  · cases d with
    | present d =>
      rw [Derivation.yield] at hd hp ⊢
      rw [looks.enters d covers hn hp]
      exact h.complete d hd hp hs
    | absent =>
      rw [Derivation.yield, List.nil_append] at hp ⊢
      rw [looks.passes apart hp hs]
      exact ⟨x₀, rfl⟩
  · rcases looks.stuck hr with hr | hr
    · obtain ⟨taken, ht, begins⟩ := h.begins hr
      exact ⟨taken, ht, begins.map .present fun _ => rfl⟩
    · cases hr

/-- The last of several choices. -/
theorem Reads.orStuck {r : Reader α} {expected : Expected} {Fits : α → Derivation a → Prop}
    (covers : a.starts.all fun y => xs.any fun x => x.covers y) (hn : a.nullable = false)
    (h : Reads n r a next Fits) :
    Reads n (do if ← sees then r else stuck expected) a next Fits := by
  refine ⟨fun hr => ?_, fun d rest hd hp hs => ?_, h.inhabited, fun {ts _ _} hr => ?_⟩
  · rcases looks.sound hr with hr | hr
    · exact h.sound hr
    · cases hr
  · rw [looks.enters d covers hn hp]
    exact h.complete d hd hp hs
  · rcases looks.stuck hr with hr | hr
    · exact h.begins hr
    · cases hr
      obtain ⟨x, d, -⟩ := h.inhabited
      exact ⟨[], rfl, Phrase.begins_nil d⟩

end

/-- The result of an optional part is there when the part is. -/
inductive Optional (Fits : α → Derivation a → Prop) : Option α → Derivation (.maybe a) → Prop where
  | absent : Optional Fits none .absent
  | present {x d} (h : Fits x d) : Optional Fits (some x) (.present d)

theorem Optional.trees {Fits : α → Derivation a → Prop} {o : Option α} {d : Derivation (.maybe a)}
    (h : Optional Fits o d) {tree : α → Tree} (hf : ∀ x d, Fits x d → d.trees = [tree x]) :
    d.trees = (o.map tree).toList := by
  cases h with
  | absent => rfl
  | present h => exact hf _ _ h

/-- An optional part that turns out to be required. -/
theorem Reads.required {r : Reader (Option α)} {f : Option α → Reader β} {expected : Expected}
    {First : α → Derivation a → Prop} {Fits : β → Derivation (.seq a b) → Prop}
    (hn : a.nullable = false) (hi : ∃ x d, First x d)
    (h : Reads n r (.maybe a) (b.opens next) (Optional First))
    (hf : ∀ x d, First x d → Reads n (f (some x)) b next fun y e => Fits y (.seq d e))
    (hs : f none = stuck expected) : Reads n (r >>= f) (.seq a b) next Fits := by
  obtain ⟨x₀, d₀, first₀⟩ := hi
  obtain ⟨y₀, e₀, fits₀⟩ := (hf x₀ d₀ first₀).inhabited
  refine ⟨fun hr => ?_, fun d rest hd hp hs => ?_, ⟨y₀, .seq d₀ e₀, fits₀⟩, fun hr => ?_⟩
  · obtain ⟨o, mid, ho, hy⟩ := Reader.bind_eq_ok hr
    obtain ⟨d, rfl, first⟩ := h.sound ho
    cases first with
    | absent =>
      rw [hs] at hy
      cases hy
    | @present x d first =>
      obtain ⟨e, rfl, fits⟩ := (hf x d first).sound hy
      exact ⟨.seq d e, (List.append_assoc _ _ _).symm, fits⟩
  · cases d with
    | seq d e =>
      rw [Derivation.yield, List.append_assoc] at hp ⊢
      rw [Derivation.yield, List.length_append] at hd
      have short : d.yield.length ≤ n := by omega
      obtain ⟨o, ho⟩ := h.complete (.present d) short hp (e.startsIn_opens hs)
      obtain ⟨d', same, first⟩ := h.sound ho
      cases first with
      | absent => exact absurd (List.append_cancel_right same) (d.yield_ne_nil hn)
      | @present x d' first =>
        obtain ⟨y, hy⟩ := (hf x d' first).complete e (by omega)
          (fun t ht => hp t (List.mem_append_right _ ht)) hs
        exact ⟨y, (Reader.bind_of_ok ho _).trans hy⟩
  · rcases Reader.bind_eq_error hr with he | ⟨o, mid, ho, he⟩
    · obtain ⟨taken, ht, d, hd⟩ := h.begins he
      cases d with
      | absent =>
        obtain rfl := List.prefix_nil.mp hd
        exact ⟨[], ht, Phrase.begins_nil (.seq d₀ e₀)⟩
      | present d => exact ⟨taken, ht, Phrase.Begins.seq ⟨d, hd⟩ e₀⟩
    · obtain ⟨d, rfl, first⟩ := h.sound ho
      cases first with
      | absent =>
        rw [hs] at he
        cases he
        exact ⟨[], rfl, Phrase.begins_nil (.seq d₀ e₀)⟩
      | @present x d first =>
        obtain ⟨taken, rfl, begins⟩ := (hf x d first).begins he
        exact ⟨d.yield ++ taken, (List.append_assoc _ _ _).symm, begins.after d⟩

/-! ### Repetitions -/

/-- The results fit the items one by one. -/
inductive Items (Fits : α → Derivation a → Prop) : List α → Derivation (.many a) → Prop where
  | done : Items Fits [] .done
  | more {x d xs e} (first : Fits x d) (rest : Items Fits xs e) : Items Fits (x :: xs) (.more d e)

theorem Items.trees {Fits : α → Derivation a → Prop} {xs : List α} {d : Derivation (.many a)}
    (h : Items Fits xs d) {tree : α → List Tree} (hf : ∀ x d, Fits x d → d.trees = tree x) :
    d.trees = xs.flatMap tree := by
  induction h with
  | done => rfl
  | more first rest ih => rw [Derivation.trees, hf _ _ first, ih, List.flatMap_cons]

theorem Items.trees_map {Fits : α → Derivation a → Prop} {xs : List α} {d : Derivation (.many a)}
    (h : Items Fits xs d) {tree : α → Tree} (hf : ∀ x d, Fits x d → d.trees = [tree x]) :
    d.trees = xs.map tree := by
  rw [h.trees hf, List.map_eq_flatMap]

theorem Items.start? {Fits : α → Derivation a → Prop} {xs : List α} {d : Derivation (.many a)}
    (h : Items Fits xs d) {position : α → Position}
    (hf : ∀ x d, Fits x d → d.start? = some (position x)) :
    d.start? = (xs.map position).head? := by
  cases h with
  | done => rfl
  | @more x d xs e first rest =>
    exact (Derivation.start?_seq_or d e).trans (by rw [hf _ _ first]; rfl)

section

variable {sees : Reader Bool} {xs : List Terminal} {item : Reader α}
  {Fits : α → Derivation a → Prop} (looks : Looks sees xs) {after : List Terminal} {k : Nat}
include looks

theorem Reads.manyWithin_sound (h : Reads n item a after Fits) {ts rest : List Token}
    {ys : List α} (hr : manyWithin sees item k Terminal.recognizes ts = .ok (ys, rest)) :
    ∃ d : Derivation (.many a), ts = d.yield ++ rest ∧ Items Fits ys d := by
  induction k generalizing ts ys with
  | zero =>
    cases hr
    exact ⟨.done, rfl, .done⟩
  | succ k ih =>
    rcases looks.sound hr with hr | hr
    · obtain ⟨y, mid, hy, hr⟩ := Reader.bind_eq_ok hr
      obtain ⟨ys, last, hys, hr⟩ := Reader.bind_eq_ok hr
      cases hr
      obtain ⟨d, rfl, hd⟩ := h.sound hy
      obtain ⟨e, rfl, he⟩ := ih hys
      exact ⟨.more d e, (List.append_assoc _ _ _).symm, .more hd he⟩
    · cases hr
      exact ⟨.done, rfl, .done⟩

theorem Reads.manyWithin_complete (h : Reads n item a (a.starts ++ next) Fits)
    (covers : a.starts.all fun y => xs.any fun x => x.covers y)
    (apart : next.all fun y => xs.all fun x => x.apart y) (hn : a.nullable = false)
    (d : Derivation (.many a)) {rest : List Token} (hk : d.yield.length ≤ k)
    (hd : d.yield.length ≤ n) (hp : ∀ t ∈ d.yield ++ rest, t.Producible)
    (hs : StartsIn next rest) :
    ∃ ys, manyWithin sees item k Terminal.recognizes (d.yield ++ rest) = .ok (ys, rest) := by
  induction k generalizing d with
  | zero =>
    cases d with
    | done => exact ⟨[], rfl⟩
    | more d e =>
      have := d.yield_ne_nil hn
      simp [Derivation.yield] at hk
      exact absurd hk.1 this
  | succ k ih =>
    cases d with
    | done =>
      rw [Derivation.yield, List.nil_append] at hp ⊢
      rw [manyWithin, looks.passes apart hp hs]
      exact ⟨[], rfl⟩
    | more d e =>
      have hne := d.yield_ne_nil hn
      have pos := List.length_pos_iff.mpr hne
      rw [Derivation.yield, List.append_assoc] at hp ⊢
      rw [Derivation.yield, List.length_append] at hd hk
      obtain ⟨x, hx⟩ := h.complete d (by omega) hp (e.startsIn_opens hs)
      obtain ⟨xs, hxs⟩ := ih e (by omega) (by omega) fun t ht =>
        hp t (List.mem_append_right _ ht)
      refine ⟨x :: xs, ?_⟩
      rw [manyWithin, looks.enters d covers hn hp, Reader.bind_of_ok hx]
      exact Reader.bind_of_ok hxs _

theorem Reads.manyWithin_begins (h : Reads n item a after Fits) {ts rest : List Token}
    {expected : Expected}
    (hr : manyWithin sees item k Terminal.recognizes ts = .error ⟨expected, rest⟩) :
    ∃ taken, ts = taken ++ rest ∧ (Phrase.many a).Begins taken := by
  induction k generalizing ts with
  | zero => cases hr
  | succ k ih =>
    rcases looks.stuck hr with hr | hr
    · rcases Reader.bind_eq_error hr with first | ⟨y, mid, hy, others⟩
      · obtain ⟨taken, ht, begins⟩ := h.begins first
        exact ⟨taken, ht, begins.map (.more · .done) fun d => List.append_nil d.yield⟩
      · obtain ⟨d, rfl, -⟩ := h.sound hy
        rcases Reader.bind_eq_error others with others | ⟨ys, last, -, none⟩
        · obtain ⟨taken, rfl, e, he⟩ := ih others
          refine ⟨d.yield ++ taken, (List.append_assoc _ _ _).symm, .more d e, ?_⟩
          exact (List.prefix_append_right_inj d.yield).mpr he
        · cases none
    · cases hr

theorem Reads.many (covers : a.starts.all fun y => xs.any fun x => x.covers y)
    (apart : next.all fun y => xs.all fun x => x.apart y) (hn : a.nullable = false)
    (h : Reads n item a (a.starts ++ next) Fits) :
    Reads n (Reader.many sees item) (.many a) next (Items Fits) := by
  refine ⟨fun hr => h.manyWithin_sound looks hr, fun d rest hd hp hs => ?_, ⟨[], .done, .done⟩,
    fun hr => h.manyWithin_begins looks hr⟩
  exact h.manyWithin_complete looks covers apart hn d (by rw [List.length_append]; omega) hd hp hs

end

end

end Mamuth
