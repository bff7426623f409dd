-- Two runs side by side. Steps that end in like ways from like states can be put together, and
-- what is put together ends in like ways again, whatever "like" means of the states, the faults
-- and what is given or left.
import Mamuth.Proofs.Checking

namespace Mamuth.Typing

/-- Two runs that end in like ways: both give something, or both stop. What they give is related
by `A`, and what they leave by `L`. -/
def Matches (S : State → State → Prop) (F : Fault → Fault → Prop) (A : α → β → Prop)
    (L : σ → τ → Prop) :
    Except (Stopped σ) (α × State) → Except (Stopped τ) (β × State) → Prop
  | .ok (a, s), .ok (b, s') => A a b ∧ S s s'
  | .error e, .error e' => F e.fault e'.fault ∧ L e.left e'.left ∧ S e.state e'.state
  | _, _ => False

section

variable {S : State → State → Prop} {F : Fault → Fault → Prop} {A : α → β → Prop}
  {B : γ → δ → Prop} {L : σ → τ → Prop} {s s' : State}

/-- When the first run gives something, so does the second. -/
theorem Matches.of_ok {r' : Except (Stopped τ) (β × State)} {a : α}
    (h : Matches S F A L (.ok (a, s) : Except (Stopped σ) (α × State)) r') :
    ∃ b t, r' = .ok (b, t) ∧ A a b ∧ S s t := by
  rcases r' with e | ⟨b, t⟩
  · exact h.elim
  · exact ⟨b, t, rfl, h.1, h.2⟩

/-- When the first run stops, so does the second. -/
theorem Matches.of_error {r' : Except (Stopped τ) (β × State)} {e : Stopped σ}
    (h : Matches S F A L (.error e : Except (Stopped σ) (α × State)) r') :
    ∃ e', r' = .error e' ∧ F e.fault e'.fault ∧ L e.left e'.left ∧ S e.state e'.state := by
  rcases r' with e' | ⟨b, t⟩
  · exact ⟨e', rfl, h⟩
  · exact h.elim

/-- The second parts run from where the first ones end. -/
theorem Matches.bind_of_ok {x : Step σ α} {y : Step τ β} {f : α → Step σ γ} {g : β → Step τ δ}
    (h : Matches S F A L (x s) (y s'))
    (hf : ∀ a b t t', x s = .ok (a, t) → A a b → S t t' → Matches S F B L (f a t) (g b t')) :
    Matches S F B L ((x >>= f) s) ((y >>= g) s') := by
  rw [Step.bind_apply, Step.bind_apply]
  rcases hx : x s with e | ⟨a, t⟩ <;> rcases hy : y s' with e' | ⟨b, t'⟩ <;> rw [hx, hy] at h
  · exact h
  · exact h.elim
  · exact h.elim
  · exact hf a b t t' hx h.1 h.2

theorem Matches.bind {x : Step σ α} {y : Step τ β} {f : α → Step σ γ} {g : β → Step τ δ}
    (h : Matches S F A L (x s) (y s'))
    (hf : ∀ a b t t', A a b → S t t' → Matches S F B L (f a t) (g b t')) :
    Matches S F B L ((x >>= f) s) ((y >>= g) s') :=
  h.bind_of_ok fun a b t t' _ => hf a b t t'

/-- What the parts leave goes into what is left of the whole. -/
theorem Matches.leaving {x : Step σ α} {y : Step τ β} {σ' τ' : Type} {L' : σ' → τ' → Prop}
    {f : σ → σ'} {g : τ → τ'} (h : Matches S F A L (x s) (y s'))
    (hl : ∀ l l', L l l' → L' (f l) (g l')) :
    Matches S F A L' (x.leaving f s) (y.leaving g s') := by
  unfold Step.leaving
  rcases hx : x s with e | ⟨a, t⟩ <;> rcases hy : y s' with e' | ⟨b, t'⟩ <;> rw [hx, hy] at h
  · exact ⟨h.1, hl _ _ h.2.1, h.2.2⟩
  · exact h.elim
  · exact h.elim
  · exact h

theorem Matches.mono {r : Except (Stopped σ) (α × State)} {r' : Except (Stopped τ) (β × State)}
    {A' : α → β → Prop} {L' : σ → τ → Prop} (h : Matches S F A L r r')
    (ha : ∀ a b, A a b → A' a b) (hl : ∀ l l', L l l' → L' l l') : Matches S F A' L' r r' := by
  rcases r with e | ⟨a, t⟩ <;> rcases r' with e' | ⟨b, t'⟩
  · exact ⟨h.1, hl _ _ h.2.1, h.2.2⟩
  · exact h.elim
  · exact h.elim
  · exact ⟨ha _ _ h.1, h.2⟩

end

end Mamuth.Typing
