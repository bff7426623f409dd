-- Lexemes tile a text: each of them takes a beginning of what is left, and never an
-- empty one, so that put together in their order they are the text again.
import Mamuth.Lexeme

namespace Mamuth.Lexeme

/-! ## One lexeme -/

theorem begins_of_run? {test : Char → Bool} {s w : List Char} (h : run? test s = some w) :
    w <+: s ∧ w ≠ [] := by
  unfold run? at h
  split at h
  · cases h
  · rename_i c cs hw
    cases h
    exact ⟨hw ▸ List.takeWhile_prefix test, by simp⟩

theorem begins_of_throughLast? {mark : Char} {s w : List Char} (h : throughLast? mark s = some w) :
    w <+: s := by
  induction s generalizing w with
  | nil => cases h
  | cons c cs ih =>
    rw [throughLast?] at h
    split at h
    · rename_i v hv
      cases h
      exact (List.prefix_cons_inj c).mpr (ih hv)
    · split at h
      · cases h
        simp
      · cases h

/-- A beginning, followed by a beginning of the rest, is a beginning. -/
theorem begins_append {s v w : List Char} (hv : v <+: s) (hw : w <+: s.drop v.length) :
    v ++ w <+: s := by
  obtain ⟨rest, rfl⟩ := hv
  rw [List.drop_left] at hw
  exact (List.prefix_append_right_inj v).mpr hw

theorem begins_sign (s : List Char) : sign s <+: s := by
  cases s with
  | nil => simp [sign]
  | cons c cs => by_cases h : c = '-' <;> simp [sign, h]

theorem begins_of_integer? {s w : List Char} (h : integer? s = some w) : w <+: s ∧ w ≠ [] := by
  obtain ⟨digits, hd, he⟩ := Option.bind_eq_some_iff.mp h
  cases he
  obtain ⟨hp, hn⟩ := begins_of_run? hd
  exact ⟨begins_append (begins_sign s) hp, by simp [hn]⟩

theorem begins_of_float? {s w : List Char} (h : float? s = some w) : w <+: s ∧ w ≠ [] := by
  obtain ⟨whole, hw, he⟩ := Option.bind_eq_some_iff.mp h
  obtain ⟨hp, hn⟩ := begins_of_integer? hw
  split at he
  · rename_i rest hr
    obtain ⟨digits, hd, he⟩ := Option.bind_eq_some_iff.mp he
    cases he
    refine ⟨begins_append hp ?_, by simp⟩
    rw [hr]
    exact (List.prefix_cons_inj _).mpr (begins_of_run? hd).1
  · cases he

/-- What a form takes is a beginning of the text, and it is not empty. -/
theorem Form.begins_of_longest? {form : Form} {s w : List Char} (h : form.longest? s = some w) :
    w <+: s ∧ w ≠ [] := by
  cases form with
  | malformed =>
    obtain ⟨figures, hf, h⟩ := Option.bind_eq_some_iff.mp h
    obtain ⟨letters, hl, h⟩ := Option.bind_eq_some_iff.mp h
    cases h
    obtain ⟨hp, hn⟩ := begins_of_run? hf
    exact ⟨begins_append hp (begins_of_run? hl).1, by simp [hn]⟩
  | comment =>
    simp only [longest?] at h
    split at h
    · rename_i hm
      cases h
      obtain ⟨rest, rfl⟩ := List.isPrefixOf_iff_prefix.mp hm
      refine ⟨List.takeWhile_prefix _, ?_⟩
      rw [show commentMark = 'm' :: "uchoTexto:".toList by decide]
      simp [line]
    · cases h
  | text =>
    simp only [longest?] at h
    split at h
    · split at h
      · obtain ⟨v, hv, he⟩ := Option.map_eq_some_iff.mp h
        cases he
        exact ⟨(List.prefix_cons_inj _).mpr
          ((begins_of_throughLast? hv).trans (List.takeWhile_prefix _)), by simp⟩
      · cases h
    · cases h
  | punctuation =>
    have hm := List.find?_some h
    have hin := List.mem_of_find?_eq_some h
    exact ⟨List.isPrefixOf_iff_prefix.mp hm, by rintro rfl; simp [punctuationMarks] at hin⟩
  | float => exact begins_of_float? h
  | integer => exact begins_of_integer? h
  | word =>
    simp only [longest?] at h
    split at h
    · split at h
      · cases h
        exact ⟨(List.prefix_cons_inj _).mpr (List.takeWhile_prefix _), by simp⟩
      · cases h
    · cases h
  | newline =>
    simp only [longest?] at h
    split at h
    · cases h
      cases s <;> simp_all
    · cases h
  | blank => exact begins_of_run? h
  | stray =>
    simp only [longest?] at h
    split at h
    · cases h
    · cases s with
      | nil => cases h
      | cons c cs => cases h; simp

/-! ## The whole text -/

/-- A lexeme is the longest beginning of its form. -/
theorem longest?_of_first? {s : List Char} {l : Lexeme} (h : first? s = some l) :
    l.form.longest? s = some l.chars := by
  obtain ⟨form, -, hf⟩ := List.exists_of_findSome?_eq_some h
  obtain ⟨w, hw, rfl⟩ := Option.map_eq_some_iff.mp hf
  exact hw

theorem begins_of_first? {s : List Char} {l : Lexeme} (h : first? s = some l) :
    l.chars <+: s ∧ l.chars ≠ [] := Form.begins_of_longest? (longest?_of_first? h)

/-- A text starts with its first lexeme, and goes on with those of the rest. -/
theorem segment_of_first? {s : List Char} {l : Lexeme} (h : first? s = some l) :
    segment s = l :: segment (s.drop l.chars.length) := by
  obtain ⟨-, hn⟩ := begins_of_first? h
  cases s with
  | nil => cases h
  | cons c cs =>
    obtain ⟨n, hl⟩ : ∃ n, l.chars.length = n + 1 := by
      cases hc : l.chars with
      | nil => exact absurd hc hn
      | cons d ds => exact ⟨ds.length, rfl⟩
    rw [segment, segmentAfter, h, hl, List.drop_succ_cons]
    simp only [segmentAfter_eq, hl, Nat.add_sub_cancel]

/-- What holds of the empty text, and of a text when it holds after its first lexeme, holds of
every text and its lexemes. -/
theorem segment_induction {P : List Char → List Lexeme → Prop} (nil : P [] [])
    (cons : ∀ l rest, first? (l.chars ++ rest) = some l → P rest (segment rest) →
      P (l.chars ++ rest) (l :: segment rest)) (s : List Char) : P s (segment s) := by
  generalize hn : s.length = n
  induction n using Nat.strongRecOn generalizing s with
  | ind n ih =>
    cases s with
    | nil => exact nil
    | cons c cs =>
      obtain ⟨l, hl⟩ := Option.ne_none_iff_exists'.mp (first?_cons_ne_none c cs)
      obtain ⟨⟨rest, hr⟩, hne⟩ := begins_of_first? hl
      have short : rest.length < n := by
        have := congrArg List.length hr
        have := List.length_pos_iff.mpr hne
        simp at *
        omega
      rw [segment_of_first? hl, ← hr, List.drop_left]
      exact cons l rest (hr ▸ hl) (ih rest.length short rest rfl)

/-- The lexemes of a text, one after the other, are the text. -/
theorem chars_segment (s : List Char) : (segment s).flatMap Lexeme.chars = s := by
  induction s using segment_induction with
  | nil => rfl
  | cons l rest _ ih => rw [List.flatMap_cons, ih]

end Mamuth.Lexeme
