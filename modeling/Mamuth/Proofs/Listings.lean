-- The listing of tokens can be read back. A lexeme stands in it as it is, with blanks to fill its
-- field, so what tells it apart is at the ends of the line: the kind is in front of the first
-- blank, the place is in the last bracket, and a lexeme of a scan does not end in a blank itself.
import Mamuth.CommandLine.Session
import Mamuth.Proofs.Outlines
import Mamuth.Proofs.Respacing
import Mamuth.Proofs.Safety

namespace Mamuth

open Text

/-! ## Fields -/

namespace Text

/-- What comes behind the last occurrence of the delimiter is determined, and so is what comes
before it. -/
theorem eq_of_last_delimiter {a : α} {xs ys r r' : List α} (hr : a ∉ r) (hr' : a ∉ r')
    (h : xs ++ a :: r = ys ++ a :: r') : xs = ys ∧ r = r' := by
  have backwards : r.reverse ++ a :: xs.reverse = r'.reverse ++ a :: ys.reverse := by
    simpa using congrArg List.reverse h
  obtain ⟨behind, before⟩ := eq_of_delimiter (by simpa using hr) (by simpa using hr') backwards
  exact ⟨List.reverse_inj.mp before, List.reverse_inj.mp behind⟩

theorem toList_field (width : Nat) (text : String) :
    (field width text).toList = text.toList ++ List.replicate (width - text.length) ' ' := by
  simp [field, blanks]

/-- In a field a word without blanks ends at the first blank. -/
theorem field_word_inj {width : Nat} {s t : String} {r r' : List Char} (hs : ' ' ∉ s.toList)
    (ht : ' ' ∉ t.toList)
    (h : (field width s).toList ++ ' ' :: r = (field width t).toList ++ ' ' :: r') :
    s = t ∧ r = r' := by
  have first (n : Nat) (r : List Char) :
      List.replicate n ' ' ++ ' ' :: r = ' ' :: (List.replicate n ' ' ++ r) := by
    rw [List.append_cons, ← List.replicate_succ', List.replicate_succ, List.cons_append]
  rw [toList_field, toList_field, List.append_assoc, List.append_assoc, first, first] at h
  obtain ⟨chars, rest⟩ := eq_of_delimiter hs ht h
  obtain rfl := String.toList_inj.mp chars
  exact ⟨rfl, List.append_cancel_left rest⟩

/-- Blanks behind a text that does not end in one are no part of it. -/
theorem eq_of_blanks {xs ys : List Char} {n m : Nat} (hx : xs.getLast? ≠ some ' ')
    (hy : ys.getLast? ≠ some ' ')
    (h : xs ++ List.replicate n ' ' = ys ++ List.replicate m ' ') : xs = ys := by
  have longer {xs ys : List Char} {n : Nat} (k : Nat) (hx : xs.getLast? ≠ some ' ')
      (h : xs ++ List.replicate n ' ' = ys ++ List.replicate (k + n) ' ') : xs = ys := by
    rw [List.replicate_add, ← List.append_assoc] at h
    have more := List.append_cancel_right h
    cases k with
    | zero => simpa using more
    | succ k =>
      refine absurd ?_ hx
      rw [more, List.replicate_succ', ← List.append_assoc, List.getLast?_concat]
  rcases Nat.le_total n m with le | le
  · obtain ⟨k, rfl⟩ := Nat.exists_eq_add_of_le' le
    exact longer k hx h
  · obtain ⟨k, rfl⟩ := Nat.exists_eq_add_of_le' le
    exact (longer k hy h.symm).symm

/-- A field shows its text, unless the text ends in a blank. -/
theorem field_inj {width : Nat} {s t : String} (hs : s.toList.getLast? ≠ some ' ')
    (ht : t.toList.getLast? ≠ some ' ') (h : field width s = field width t) : s = t := by
  have chars := congrArg String.toList h
  rw [toList_field, toList_field] at chars
  exact String.toList_inj.mp (eq_of_blanks hs ht chars)

end Text

/-! ## The line of a token -/

namespace Token

theorem Kind.mem_all (k : Kind) : k ∈ all := by
  cases k <;> decide

theorem Kind.name_inj {k l : Kind} (h : k.name = l.name) : k = l := by
  have names : (all.map name).Nodup := by decide
  exact List.inj_on_of_nodup_map names k.mem_all l.mem_all h

theorem Kind.blank_not_mem_name (k : Kind) : ' ' ∉ k.name.toList := by
  cases k <;> simp [name]

/-- The lexeme can be read from a listing: it is in one line, and it does not end in a blank. -/
structure Legible (t : Token) : Prop where
  oneLine : OneLine t.lexeme
  trimmed : t.lexeme.toList.getLast? ≠ some ' '

theorem toList_line (t : Token) : t.line.toList =
    (field 16 t.kind.name).toList ++ ' ' :: ("--> ".toList ++
      (((field 12 t.lexeme).toList ++ [' ']) ++ '(' :: (t.position.inWords.toList ++ [')']))) := by
  simp [line, toString]

theorem oneLine_line {t : Token} (h : t.Legible) : OneLine t.line := by
  have field {width : Nat} {s : String} (hs : OneLine s) : '\n' ∉ (field width s).toList := by
    simp [toList_field, show '\n' ∉ s.toList from hs]
  have place : '\n' ∉ t.position.inWords.toList := t.position.oneLine_inWords
  rw [OneLine, toList_line]
  simp [field t.kind.oneLine_name, field h.oneLine, place]

theorem bracket_not_mem_inWords (p : Position) : '(' ∉ p.inWords.toList := by
  have digits (n : Nat) : '(' ∉ Nat.toDigits 10 n :=
    not_mem_toDigits (fun _ => Nat.digitChar_ne _ (by decide)) (by decide) n
  simp [Position.toList_inWords, digits]

/-- A line shows all of the token. -/
theorem line_inj {t u : Token} (ht : t.Legible) (hu : u.Legible) (h : t.line = u.line) :
    t = u := by
  have chars := congrArg String.toList h
  rw [toList_line, toList_line] at chars
  obtain ⟨name, rest⟩ := field_word_inj t.kind.blank_not_mem_name u.kind.blank_not_mem_name chars
  -- The lexeme may hold brackets, but there is none behind that of the place.
  have place (p : Position) : '(' ∉ p.inWords.toList ++ [')'] := by
    simp [bracket_not_mem_inWords p]
  obtain ⟨field, bracket⟩ := eq_of_last_delimiter (place _) (place _)
    (List.append_cancel_left rest)
  have kind : t.kind = u.kind := Kind.name_inj name
  have lexeme : t.lexeme = u.lexeme := field_inj ht.trimmed hu.trimmed
    (String.toList_inj.mp (List.append_cancel_right field))
  have position : t.position = u.position := (Position.inWords_append_inj bracket).1
  calc t
    _ = ⟨t.kind, t.lexeme, t.position⟩ := rfl
    _ = ⟨u.kind, u.lexeme, u.position⟩ := by rw [kind, lexeme, position]

/-! ## Listings -/

/-- The lines of tokens, each with its newline. -/
def listing (tokens : List Token) : String := String.join (tokens.map (·.line ++ "\n"))

/-- A listing has one line for each token. -/
theorem splitOn_listing {ts : List Token} (h : ∀ t ∈ ts, t.Legible) :
    (listing ts).toList.splitOn '\n' = (ts.map line).map String.toList ++ [[]] := by
  have rows : ts.map (·.line ++ "\n") = (ts.map line).map (· ++ "\n") := by
    rw [List.map_map]
    rfl
  rw [listing, rows, Tree.splitOn_join]
  exact List.forall_mem_map.mpr fun t ht => oneLine_line (h t ht)

theorem lines_inj {ts us : List Token} (ht : ∀ t ∈ ts, t.Legible) (hu : ∀ u ∈ us, u.Legible)
    (h : ts.map line = us.map line) : ts = us := by
  induction ts generalizing us with
  | nil => exact (List.map_eq_nil_iff.mp h.symm).symm
  | cons t ts ih =>
    cases us with
    | nil => cases h
    | cons u us =>
      rw [List.forall_mem_cons] at ht hu
      obtain ⟨first, rest⟩ := List.cons.inj h
      rw [line_inj ht.1 hu.1 first, ih ht.2 hu.2 rest]

theorem listing_inj {ts us : List Token} (ht : ∀ t ∈ ts, t.Legible) (hu : ∀ u ∈ us, u.Legible)
    (h : listing ts = listing us) : ts = us := by
  have split := congrArg (·.toList.splitOn '\n') h
  simp only [splitOn_listing ht, splitOn_listing hu] at split
  have chars : Function.Injective String.toList := fun _ _ => String.toList_inj.mp
  exact lines_inj ht hu (List.map_injective_iff.mpr chars (List.append_cancel_right split))

/-- The lexeme of a token ends in a text mark or has no blank at all. -/
theorem IsLexeme.legible {t : Token} (h : t.IsLexeme) : t.Legible := by
  obtain ⟨l, alone, hk, recognized, lexeme⟩ := h
  have spells := Lexeme.spells_of_first? alone
  rcases Lexeme.text_or_isTight hk recognized with text | tight
  · obtain ⟨-, last, inLine⟩ := Lexeme.marks_of_spells (text ▸ spells)
    refine ⟨by rwa [OneLine, lexeme, String.toList_ofList], ?_⟩
    rw [lexeme, String.toList_ofList, last]
    decide
  · have free := Lexeme.not_mem_of_isTight tight spells
    refine ⟨?_, fun last => ?_⟩
    · rw [OneLine, lexeme, String.toList_ofList]
      exact free '\n' (by simp)
    · rw [lexeme, String.toList_ofList] at last
      exact free ' ' (by simp) (List.mem_of_getLast? last)

end Token

/-- What is printed of a text when only its tokens are asked for. -/
theorem CommandLine.output_explore {source : String} {tokens : List Token}
    (h : scan source = .ok tokens) :
    ((output .explore source).run []).1 = .ok (Token.listing tokens) := by
  rw [output]
  simp only [Compiler.run_bind, Compiler.run_scan, h, if_true]
  rfl

/-- When only the tokens of a text are asked for, their listing is printed; and two texts have the
same listing only if they have the same tokens, at the same places. -/
theorem Token.listing_lossless {a b : String} {ts us : List Token} (ha : scan a = .ok ts)
    (hb : scan b = .ok us) :
    ((CommandLine.output .explore a).run []).1 = .ok (listing ts) ∧
      (listing ts = listing us ↔ ts = us) := by
  have legible {source : String} {ts : List Token} (h : scan source = .ok ts) :
      ∀ t ∈ ts, t.Legible := fun _ ht => (isLexeme_of_scan h ht).legible
  exact ⟨CommandLine.output_explore ha, listing_inj (legible ha) (legible hb), congrArg listing⟩

/-- A text that reads like the rest of a line does not hide that it stands one column further. -/
theorem Token.listing_lossless_imitation : ∃ ts us,
    scan "x.ツ --> a (line 1, column 2)ツ" = .ok ts ∧
      scan "x .ツ --> a (line 1, column 2)ツ" = .ok us ∧ listing ts ≠ listing us := by
  let text (column : Nat) : Token := ⟨.text, "ツ --> a (line 1, column 2)ツ", ⟨1, column⟩⟩
  let ts : List Token := [⟨.identifier, "x", ⟨1, 1⟩⟩, ⟨.punctuation, ".", ⟨1, 2⟩⟩, text 3]
  let us : List Token := [⟨.identifier, "x", ⟨1, 1⟩⟩, ⟨.punctuation, ".", ⟨1, 3⟩⟩, text 4]
  have ha : scan "x.ツ --> a (line 1, column 2)ツ" = .ok ts := rfl
  have hb : scan "x .ツ --> a (line 1, column 2)ツ" = .ok us := rfl
  have apart : ts ≠ us := by decide
  exact ⟨ts, us, ha, hb, fun same => apart ((listing_lossless ha hb).2.mp same)⟩

end Mamuth
