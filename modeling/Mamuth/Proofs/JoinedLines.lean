-- Scanning by lines. No lexeme goes over a newline, so that what comes before a newline and what
-- comes after it are scanned as if each stood alone: the tokens of the first text, and then those
-- of the second as many lines further down as the first one has.
import Mamuth.Proofs.Lines

namespace Mamuth

/-! ## No lexeme over a newline -/

namespace Lexeme

/-- What cannot go on into the rest ends before it. -/
theorem begins_of_not_mem {w rest v : List Char} (h : v <+: w ++ rest)
    (free : ∀ c ∈ rest.head?, c ∉ v) : v <+: w := by
  rcases List.prefix_or_prefix_of_prefix h (List.prefix_append w rest) with within | ⟨u, rfl⟩
  · exact within
  · rw [List.prefix_append_right_inj] at h
    cases u with
    | nil => simp
    | cons c u =>
      obtain ⟨more, rfl⟩ := h
      exact absurd (List.mem_append_right w List.mem_cons_self) (free c rfl)

/-- What a form can take before a newline does not depend on the newline. -/
theorem begins_of_spells {form : Form} {s r v : List Char} (hs : s ≠ [])
    (h : v <+: s ++ '\n' :: r) (spells : form.pattern.Spells v) : v <+: s := by
  by_cases hf : form = .newline
  · subst hf
    obtain rfl := Pattern.spells_exactly.mp spells
    obtain ⟨c, s, rfl⟩ := List.exists_cons_of_ne_nil hs
    rw [List.cons_append, List.cons_prefix_cons] at h
    rw [h.1]
    exact List.prefix_append [c] s
  · refine begins_of_not_mem h ?_
    rintro c ⟨⟩ hn
    refine hf ?_
    simpa [form.admits_newline] using Pattern.admits_of_spells spells hn

theorem first?_append_newline {s : List Char} (hs : s ≠ []) (r : List Char) :
    first? (s ++ '\n' :: r) = first? s := by
  obtain ⟨c, cs, rfl⟩ := List.exists_cons_of_ne_nil hs
  obtain ⟨l, hl⟩ := Option.ne_none_iff_exists'.mp (first?_cons_ne_none c cs)
  obtain ⟨before, after, order, earlier, longest⟩ := preferred_iff.mpr hl
  rw [hl]
  refine preferred_iff.mp ⟨before, after, order, fun form hf v hv spells => ?_, ?_⟩
  · exact earlier form hf v (begins_of_spells hs hv spells) spells
  · refine ⟨longest.begins.trans (List.prefix_append _ _), longest.spells, fun v hv spells => ?_⟩
    exact longest.longest v (begins_of_spells hs hv spells) spells

theorem segment_append_newline (s r : List Char) :
    segment (s ++ '\n' :: r) = segment s ++ ⟨.newline, ['\n']⟩ :: segment r := by
  induction s using segment_induction with
  | nil =>
    have newline : first? ('\n' :: r) = some ⟨.newline, ['\n']⟩ := rfl
    exact segment_of_first? newline
  | cons l rest first ih =>
    have hne : l.chars ++ rest ≠ [] := by simp [(begins_of_first? first).2]
    rw [← first?_append_newline hne r] at first
    rw [segment_of_first? first, List.append_assoc, List.drop_left, ih, List.cons_append]

/-! ## Places -/

theorem place_append (p : Position) (ls ms : List Lexeme) :
    place p (ls ++ ms) = place p ls ++ place (p.after (ls.flatMap Lexeme.chars)) ms := by
  induction ls generalizing p with
  | nil => rfl
  | cons l ls ih =>
    rw [List.cons_append, place, ih, place, List.flatMap_cons, Position.after_append,
      List.cons_append]

end Lexeme

/-- Some lines further down. -/
def Position.down (lines : Nat) (p : Position) : Position := ⟨p.line + lines, p.column⟩

namespace Position

theorem down_next (lines : Nat) (p : Position) (c : Char) :
    (p.down lines).next c = (p.next c).down lines := by
  unfold next
  by_cases hc : c = '\n'
  · rw [if_pos hc, if_pos hc, down, down, Nat.add_right_comm]
  · rw [if_neg hc, if_neg hc, down, down]

theorem down_after (lines : Nat) (p : Position) (cs : List Char) :
    (p.down lines).after cs = (p.after cs).down lines := by
  induction cs generalizing p with
  | nil => rfl
  | cons c cs ih => rw [after_cons, down_next, ih, after_cons]

/-- After a text and a newline a line starts. -/
theorem after_newline (source : String) :
    (start.after source.toList).after ['\n'] = start.down (lineCount source) := by
  rw [after_start, after_cons, after_nil, next, if_pos rfl, down, lineCount, start,
    Nat.add_comm 1]

end Position

theorem Lexeme.place_down (lines : Nat) (p : Position) (ls : List Lexeme) :
    place (p.down lines) ls = (place p ls).map fun placed => (placed.1, placed.2.down lines) := by
  induction ls generalizing p with
  | nil => rfl
  | cons l ls ih => rw [place, place, Position.down_after, ih, List.map_cons]

/-! ## Tokens -/

namespace Token

/-- The token some lines further down. -/
def down (lines : Nat) (t : Token) : Token := { t with position := t.position.down lines }

theorem ofLexeme?_down (lines : Nat) (placed : Lexeme × Position) :
    ofLexeme? (placed.1, placed.2.down lines) = (ofLexeme? placed).map (down lines) := by
  unfold ofLexeme?
  rw [Option.map_map]
  rfl

theorem tokens_place_down (lines : Nat) (p : Position) (ls : List Lexeme) :
    (Lexeme.place (p.down lines) ls).filterMap ofLexeme? =
      ((Lexeme.place p ls).filterMap ofLexeme?).map (down lines) := by
  rw [Lexeme.place_down, List.filterMap_map, List.map_filterMap]
  congr 1
  funext placed
  exact ofLexeme?_down lines placed

theorem list_append_newline (a b : String) :
    list (a ++ "\n" ++ b) = list a ++ (list b).map (down (lineCount a)) := by
  have text : (a ++ "\n" ++ b).toList = a.toList ++ '\n' :: b.toList := by
    rw [String.toList_append, String.toList_append, List.append_assoc]
    rfl
  have newline (p : Position) : ofLexeme? (⟨.newline, ['\n']⟩, p) = none := rfl
  rw [list, text, Lexeme.segment_append_newline, Lexeme.place_append, List.filterMap_append,
    Lexeme.chars_segment, Lexeme.place, List.filterMap_cons_none (newline _),
    Position.after_newline, tokens_place_down, list, list]

theorem unrecognized_down (lines : Nat) (ts : List Token) :
    (ts.map (down lines)).filter (·.kind = .unrecognized) =
      (ts.filter (·.kind = .unrecognized)).map (down lines) := by
  rw [List.filter_map]
  rfl

end Token

/-! ## Scans -/

/-- Two texts with a newline between them are scanned one after the other. -/
theorem scan_append_newline (a b : String) :
    scan (a ++ "\n" ++ b) =
      match scan a, scan b with
      | .ok ts, .ok us => .ok (ts ++ us.map (·.down (lineCount a)))
      | .ok _, .error es => .error (es.map (·.down (lineCount a)))
      | .error ds, .ok _ => .error ds
      | .error ds, .error es => .error (ds ++ es.map (·.down (lineCount a))) := by
  rw [scan_eq_list (a ++ "\n" ++ b), scan_eq_list a, scan_eq_list b, Token.list_append_newline,
    List.filter_append, Token.unrecognized_down]
  by_cases ha : (Token.list a).filter (·.kind = .unrecognized) = []
  · by_cases hb : (Token.list b).filter (·.kind = .unrecognized) = []
    · simp [ha, hb]
    · simp [ha, hb]
  · by_cases hb : (Token.list b).filter (·.kind = .unrecognized) = []
    · simp [ha, hb]
    · simp [ha, hb]

end Mamuth
