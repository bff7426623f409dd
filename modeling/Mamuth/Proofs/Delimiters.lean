-- Texts that can be told apart from what stands behind them. A word without blanks ends at a
-- blank, the digits of a number at whatever is no digit, and a quoted text, whatever it holds, at
-- the first quote that no backslash stands before. So a line with all of these can be read back.
import Mathlib.Data.List.Nodup
import Mamuth.Proofs.Messages

namespace Mamuth

namespace Text

/-- A word that the delimiter is not in ends at the first one. -/
theorem eq_of_delimiter {a : α} {xs ys r r' : List α} (hx : a ∉ xs) (hy : a ∉ ys)
    (h : xs ++ a :: r = ys ++ a :: r') : xs = ys ∧ r = r' := by
  induction xs generalizing ys with
  | nil =>
    cases ys with
    | nil => exact ⟨rfl, (List.cons.inj h).2⟩
    | cons y ys =>
      obtain ⟨rfl, -⟩ := List.cons.inj h
      exact absurd List.mem_cons_self hy
  | cons x xs ih =>
    cases ys with
    | nil =>
      obtain ⟨rfl, -⟩ := List.cons.inj h
      exact absurd List.mem_cons_self hx
    | cons y ys =>
      obtain ⟨rfl, behind⟩ := List.cons.inj h
      obtain ⟨rfl, rest⟩ := ih (hx ∘ .tail _) (hy ∘ .tail _) behind
      exact ⟨rfl, rest⟩

/-! ## Numbers -/

theorem digitChar_inj {d e : Nat} (hd : d < 16) (he : e < 16) (h : d.digitChar = e.digitChar) :
    d = e := by
  have table : (List.range 16).all fun d => (List.range 16).all fun e =>
      d.digitChar ≠ e.digitChar ∨ d = e := by decide
  have row := List.all_eq_true.mp table d (List.mem_range.mpr hd)
  have cell := of_decide_eq_true (List.all_eq_true.mp row e (List.mem_range.mpr he))
  exact cell.resolve_left (not_not_intro h)

/-- Numbers with the same digits are equal. -/
theorem toDigits_inj {b : Nat} (low : 1 < b) (high : b ≤ 16) {n m : Nat}
    (h : Nat.toDigits b n = Nat.toDigits b m) : n = m := by
  have digit {d e : Nat} (hd : d < b) (he : e < b) (same : [d.digitChar] = [e.digitChar]) :
      d = e := digitChar_inj (by omega) (by omega) (List.singleton_inj.mp same)
  have longer (k d e : Nat) : Nat.toDigits b k ++ [d.digitChar] ≠ [e.digitChar] := by
    intro same
    have some : 0 < (Nat.toDigits b k).length := Nat.length_toDigits_pos
    have length := congrArg List.length same
    rw [List.length_append, List.length_singleton, List.length_singleton] at length
    omega
  induction n using Nat.strongRecOn generalizing m with
  | ind n ih =>
    rw [Nat.toDigits_eq_if low, Nat.toDigits_eq_if low (n := m)] at h
    split at h <;> split at h
    · exact digit ‹_› ‹_› h
    · exact absurd h.symm (longer _ _ _)
    · exact absurd h (longer _ _ _)
    · obtain ⟨before, last⟩ := List.append_inj' h rfl
      have quotient := ih (n / b) (Nat.div_lt_self (by omega) low) before
      have rest := digit (Nat.mod_lt n (by omega)) (Nat.mod_lt m (by omega)) last
      rw [← Nat.div_add_mod n b, ← Nat.div_add_mod m b, quotient, rest]

/-! ## Quoted texts -/

/-- The ways in which a character can stand in a quoted text. Only the first two begin with a
backslash, and they go on differently. -/
inductive Escaped (c : Char) : List Char → Prop
  | short {letter : Char} (h : (c, letter) ∈ shortEscapes) : Escaped c ['\\', letter]
  | number : Escaped c (numbered c)
  | plain (quote : c ≠ '"') (backslash : c ≠ '\\') : Escaped c [c]

theorem escaped_escape (c : Char) : Escaped c (escape c) := by
  unfold escape
  split
  · rename_i letter h
    obtain ⟨before, after, hp, -⟩ := List.lookup_eq_some_iff.mp h
    exact .short (by rw [hp]; simp)
  · rename_i h
    split
    · exact .number
    · exact .plain (by rintro rfl; cases h) (by rintro rfl; cases h)

/-- No character begins with the quote that ends the text. -/
theorem escape_append_ne (c : Char) (r r' : List Char) : escape c ++ r ≠ '"' :: r' := by
  have way := escaped_escape c
  generalize escape c = e at way
  intro h
  cases way with
  | short | number => simp [numbered] at h
  | plain quote => exact quote (List.cons.inj h).1

theorem numbered_append_inj {c d : Char} {r r' : List Char}
    (h : numbered c ++ r = numbered d ++ r') : c = d ∧ r = r' := by
  have brace (c : Char) : '\x7d' ∉ Nat.toDigits 16 c.toNat :=
    not_mem_toDigits (fun _ => Nat.digitChar_ne _ (by decide)) (by decide) _
  have inside : Nat.toDigits 16 c.toNat ++ '\x7d' :: r = Nat.toDigits 16 d.toNat ++ '\x7d' :: r' := by
    simpa [numbered] using h
  obtain ⟨digits, rest⟩ := eq_of_delimiter (brace c) (brace d) inside
  exact ⟨Char.toNat_inj.mp (toDigits_inj (by decide) (Nat.le_refl 16) digits), rest⟩

theorem escape_append_inj {c d : Char} {r r' : List Char}
    (h : escape c ++ r = escape d ++ r') : c = d ∧ r = r' := by
  have letters : (shortEscapes.map Prod.snd).Nodup := by decide
  have braces : 'u' ∉ shortEscapes.map Prod.snd := by decide
  have noNumber {c d : Char} {letter : Char} {r r' : List Char} (hl : (c, letter) ∈ shortEscapes) :
      ['\\', letter] ++ r ≠ numbered d ++ r' := by
    intro h
    obtain ⟨rfl, -⟩ : letter = 'u' ∧ _ := by simpa [numbered] using h
    exact braces (List.mem_map_of_mem hl)
  have way := escaped_escape c
  have way' := escaped_escape d
  generalize escape c = e at way h
  generalize escape d = e' at way' h
  cases way with
  | short hl =>
    cases way' with
    | short hl' =>
      obtain ⟨rfl, rfl⟩ : _ ∧ r = r' := by simpa using h
      exact ⟨congrArg Prod.fst (List.inj_on_of_nodup_map letters hl hl' rfl), rfl⟩
    | number => exact absurd h (noNumber hl)
    | plain _ backslash => exact absurd (List.cons.inj h).1.symm backslash
  | number =>
    cases way' with
    | short hl' => exact absurd h.symm (noNumber hl')
    | number => exact numbered_append_inj h
    | plain _ backslash => exact absurd (List.cons.inj h).1.symm backslash
  | plain _ backslash =>
    cases way' with
    | short => exact absurd (List.cons.inj h).1 backslash
    | number => exact absurd (List.cons.inj h).1 backslash
    | plain => exact List.cons.inj h

theorem flatMap_escape_inj {cs ds r r' : List Char}
    (h : cs.flatMap escape ++ '"' :: r = ds.flatMap escape ++ '"' :: r') : cs = ds ∧ r = r' := by
  induction cs generalizing ds with
  | nil =>
    cases ds with
    | nil => exact ⟨rfl, (List.cons.inj h).2⟩
    | cons d ds =>
      rw [List.flatMap_cons, List.append_assoc] at h
      exact absurd h.symm (escape_append_ne d _ _)
  | cons c cs ih =>
    rw [List.flatMap_cons, List.append_assoc] at h
    cases ds with
    | nil => exact absurd h (escape_append_ne c _ _)
    | cons d ds =>
      rw [List.flatMap_cons, List.append_assoc] at h
      obtain ⟨rfl, behind⟩ := escape_append_inj h
      obtain ⟨rfl, rest⟩ := ih behind
      exact ⟨rfl, rest⟩

/-- A quoted text shows what it holds, and where it ends. -/
theorem quoted_append_inj {s t : String} {r r' : List Char}
    (h : (quoted s).toList ++ r = (quoted t).toList ++ r') : s = t ∧ r = r' := by
  have inside : s.toList.flatMap escape ++ '"' :: r = t.toList.flatMap escape ++ '"' :: r' := by
    simpa [quoted] using h
  obtain ⟨chars, rest⟩ := flatMap_escape_inj inside
  exact ⟨String.toList_inj.mp chars, rest⟩

end Text

open Text

theorem Position.toList_inWords (p : Position) :
    p.inWords.toList = "line ".toList ++ (Nat.toDigits 10 p.line ++ ',' ::
      (" column ".toList ++ Nat.toDigits 10 p.column)) := by
  simp only [inWords, String.toList_append, List.append_assoc]
  rw [Nat.toString_eq_repr, Nat.toString_eq_repr, Nat.toList_repr, Nat.toList_repr]
  rfl

/-- A place in words shows the place, with a bracket behind it. -/
theorem Position.inWords_append_inj {p q : Position} {r r' : List Char}
    (h : p.inWords.toList ++ ')' :: r = q.inWords.toList ++ ')' :: r') : p = q ∧ r = r' := by
  have apart {c : Char} (hc : ∀ d : Nat, d.digitChar ≠ c) (n : Nat) : c ∉ Nat.toDigits 10 n :=
    not_mem_toDigits hc (by decide) n
  have comma := apart (c := ',') fun _ => Nat.digitChar_ne _ (by decide)
  have bracket := apart (c := ')') fun _ => Nat.digitChar_ne _ (by decide)
  simp only [toList_inWords, List.append_assoc, List.cons_append] at h
  obtain ⟨line, behind⟩ := eq_of_delimiter (comma _) (comma _) (List.append_cancel_left h)
  obtain ⟨column, rest⟩ := eq_of_delimiter (bracket _) (bracket _)
    (List.append_cancel_left behind)
  obtain ⟨l, c⟩ := p
  obtain ⟨l', c'⟩ := q
  obtain rfl : l = l' := toDigits_inj (by decide) (by decide) line
  obtain rfl : c = c' := toDigits_inj (by decide) (by decide) column
  exact ⟨rfl, rest⟩

end Mamuth
