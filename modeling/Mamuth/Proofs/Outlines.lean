-- The outline of a tree can be read back. It has one line for each node, whatever text the node
-- holds; the line shows the level of the node and all that the node holds but its number; and the
-- levels, in the order of the lines, tell which node is below which.
import Mamuth.Outline
import Mamuth.Proofs.Delimiters
import Mamuth.Proofs.Origins

namespace Mamuth

open Text

/-! ## The line of a node -/

theorem Ty.mem_all (t : Ty) : t ∈ all := by
  cases t <;> decide

theorem Ty.name_inj {t u : Ty} (h : t.name = u.name) : t = u := by
  have names : (all.map name).Nodup := by decide
  exact List.inj_on_of_nodup_map names t.mem_all u.mem_all h

namespace Node

theorem Kind.mem_all (k : Kind) : k ∈ all := by
  cases k <;> decide

theorem Kind.name_inj {k l : Kind} (h : k.name = l.name) : k = l := by
  have names : (all.map name).Nodup := by decide
  exact List.inj_on_of_nodup_map names k.mem_all l.mem_all h

/-- The name of a kind is one word of letters. -/
theorem Kind.exists_name (k : Kind) :
    ∃ c cs, k.name = String.ofList (c :: cs) ∧ (c :: cs).all Char.isAlpha := by
  cases k <;> exact ⟨_, _, rfl, by decide⟩

theorem Kind.isAlpha_name (k : Kind) : ∀ c ∈ k.name.toList, c.isAlpha := by
  obtain ⟨c, cs, name, letters⟩ := k.exists_name
  rw [name, String.toList_ofList]
  exact List.all_eq_true.mp letters

/-- What a summary shows between the kind and the place. -/
def contentMark : Option String → List Char
  | some text => (quoted text).toList ++ [' ']
  | none => []

/-- What a summary shows behind the place. -/
def typeMark : Option Ty → List Char
  | some t => " : ".toList ++ t.name.toList
  | none => []

theorem toList_summary (n : Node) :
    n.summary.toList = n.kind.name.toList ++ ' ' :: (contentMark n.content ++
      '(' :: (n.position.inWords.toList ++ ')' :: typeMark n.type)) := by
  obtain ⟨id, kind, content, position, type⟩ := n
  cases content <;> cases type <;> simp [summary, contentMark, typeMark, toString]

theorem oneLine_summary (n : Node) : OneLine n.summary := by
  have word : '\n' ∉ n.kind.name.toList := fun h => absurd (n.kind.isAlpha_name _ h) (by decide)
  have content : '\n' ∉ contentMark n.content := by
    cases n.content with
    | none => simp [contentMark]
    | some text => simpa [contentMark, OneLine] using oneLine_quoted text
  have type : '\n' ∉ typeMark n.type := by
    cases n.type with
    | none => simp [typeMark]
    | some t => simpa [typeMark, OneLine] using t.oneLine_name
  have place : '\n' ∉ n.position.inWords.toList := n.position.oneLine_inWords
  rw [OneLine, toList_summary]
  simp [word, content, place, type]

theorem typeMark_inj {s t : Option Ty} (h : typeMark s = typeMark t) : s = t := by
  cases s with
  | none =>
    cases t with
    | none => rfl
    | some => cases h
  | some =>
    cases t with
    | none => cases h
    | some => exact congrArg some (Ty.name_inj (String.toList_inj.mp (List.append_cancel_left h)))

/-- The content, if there is one, begins with a quote, and the place with a bracket. -/
theorem contentMark_append_inj {s t : Option String} {r r' : List Char}
    (h : contentMark s ++ '(' :: r = contentMark t ++ '(' :: r') : s = t ∧ r = r' := by
  have quote (text : String) : ∃ cs, contentMark (some text) = '"' :: cs := by
    simp [contentMark, quoted]
  cases s with
  | none =>
    cases t with
    | none => exact ⟨rfl, (List.cons.inj h).2⟩
    | some text =>
      obtain ⟨cs, hc⟩ := quote text
      rw [hc] at h
      cases h
  | some text =>
    cases t with
    | none =>
      obtain ⟨cs, hc⟩ := quote text
      rw [hc] at h
      cases h
    | some text' =>
      rw [contentMark, contentMark, List.append_assoc, List.append_assoc] at h
      obtain ⟨rfl, rest⟩ := quoted_append_inj h
      exact ⟨rfl, (List.cons.inj (List.append_cancel_left rest)).2⟩

/-- The node without its number. -/
def unnumbered (n : Node) : Node := { n with id := 0 }

/-- A summary shows all of the node but its number. -/
theorem summary_inj {n m : Node} (h : n.summary = m.summary) : n.unnumbered = m.unnumbered := by
  have blank (k : Kind) : ' ' ∉ k.name.toList := fun h => absurd (k.isAlpha_name _ h) (by decide)
  have chars := congrArg String.toList h
  rw [toList_summary, toList_summary] at chars
  obtain ⟨kind, rest⟩ := eq_of_delimiter (blank _) (blank _) chars
  obtain ⟨content, rest⟩ := contentMark_append_inj rest
  obtain ⟨position, rest⟩ := Position.inWords_append_inj rest
  rw [unnumbered, unnumbered, Kind.name_inj (String.toList_inj.mp kind), content, position,
    typeMark_inj rest]

/-- The line of a node that is at the given level. -/
def line (level : Nat) (n : Node) : String := indentation level ++ n.summary

theorem oneLine_line (level : Nat) (n : Node) : OneLine (n.line level) := by
  have before : OneLine (indentation level) := by
    cases level <;> simp [OneLine, indentation, blanks]
  exact oneLine_append.mpr ⟨before, n.oneLine_summary⟩

/-- What is below another node begins with blanks or with a branch, and no summary does. -/
theorem summary_ne_line_succ (n m : Node) (level : Nat) : n.summary ≠ m.line (level + 1) := by
  intro h
  obtain ⟨c, cs, name, letters⟩ := n.kind.exists_name
  have letter : c.isAlpha := List.all_eq_true.mp letters c List.mem_cons_self
  have chars := congrArg String.toList h
  rw [toList_summary, name, String.toList_ofList] at chars
  cases level with
  | zero =>
    obtain ⟨rfl, -⟩ : c = '|' ∧ _ := by simpa [line, indentation, blanks] using chars
    cases letter
  | succ level =>
    obtain ⟨rfl, -⟩ : c = ' ' ∧ _ := by
      simpa [line, indentation, blanks, Nat.mul_succ, List.replicate_succ] using chars
    cases letter

/-- A line shows the level and the node. -/
theorem line_inj {level level' : Nat} {n m : Node} (h : n.line level = m.line level') :
    level = level' ∧ n.unnumbered = m.unnumbered := by
  have first (n : Node) : n.line 0 = n.summary := by simp [line, indentation]
  cases level with
  | zero =>
    cases level' with
    | zero => exact ⟨rfl, summary_inj (by rwa [first, first] at h)⟩
    | succ => exact absurd (first n ▸ h) (summary_ne_line_succ _ _ _)
  | succ level =>
    cases level' with
    | zero => exact absurd (first m ▸ h).symm (summary_ne_line_succ _ _ _)
    | succ level' =>
      have chars (level : Nat) (n : Node) : (n.line (level + 1)).toList =
          List.replicate (3 * level) ' ' ++ '|' :: ("__".toList ++ n.summary.toList) := by
        simp [line, indentation, blanks]
      have branch (level : Nat) : '|' ∉ List.replicate (3 * level) ' ' := by simp
      have same := congrArg String.toList h
      rw [chars, chars] at same
      obtain ⟨before, behind⟩ := eq_of_delimiter (branch _) (branch _) same
      have width : 3 * level = 3 * level' := by simpa using congrArg List.length before
      exact ⟨by omega, summary_inj (String.toList_inj.mp (List.append_cancel_left behind))⟩

end Node

/-- Lists that one map makes equal are made equal by any map that tells no more apart. -/
theorem map_eq_of_map_eq {f : α → β} {g : α → γ} {xs ys : List α}
    (hf : ∀ x y, f x = f y → g x = g y) (h : xs.map f = ys.map f) : xs.map g = ys.map g := by
  induction xs generalizing ys with
  | nil =>
    obtain rfl := List.map_eq_nil_iff.mp h.symm
    rfl
  | cons x xs ih =>
    cases ys with
    | nil => cases h
    | cons y ys =>
      obtain ⟨first, rest⟩ := List.cons.inj h
      rw [List.map_cons, List.map_cons, hf x y first, ih rest]

/-! ## Levels -/

namespace Tree

mutual

/-- The nodes of a tree whose root is at the given level, each with its own level. -/
def leveledFrom (level : Nat) : Tree → List (Nat × Node)
  | node root children => (level, root) :: leveledAllFrom (level + 1) children

def leveledAllFrom (level : Nat) : List Tree → List (Nat × Node)
  | [] => []
  | t :: ts => leveledFrom level t ++ leveledAllFrom level ts

end

/-- The nodes in their order, each with the number of nodes that it is below. -/
def leveled (t : Tree) : List (Nat × Node) := t.leveledFrom 0

mutual

theorem linesAt_eq (level : Nat) (t : Tree) :
    t.linesAt level = (t.leveledFrom level).map fun p => p.2.line p.1 := by
  cases t with
  | node root children =>
    rw [linesAt, leveledFrom, linesAllAt_eq]
    rfl

theorem linesAllAt_eq (level : Nat) (ts : List Tree) :
    linesAllAt level ts = (leveledAllFrom level ts).map fun p => p.2.line p.1 := by
  cases ts with
  | nil => rfl
  | cons t ts => rw [linesAllAt, leveledAllFrom, List.map_append, linesAt_eq, linesAllAt_eq]

end

mutual

theorem leveledFrom_snd (level : Nat) (t : Tree) :
    (t.leveledFrom level).map Prod.snd = t.nodes := by
  cases t with
  | node root children =>
    rw [leveledFrom, nodes, subtrees, List.map_cons, List.map_cons, leveledAllFrom_snd]
    rfl

theorem leveledAllFrom_snd (level : Nat) (ts : List Tree) :
    (leveledAllFrom level ts).map Prod.snd = (subtreesAll ts).map root := by
  cases ts with
  | nil => rfl
  | cons t ts =>
    rw [leveledAllFrom, subtreesAll, List.map_append, List.map_append, leveledFrom_snd,
      leveledAllFrom_snd]
    rfl

end

mutual

theorem leveledFrom_unnumbered (level : Nat) (t : Tree) :
    t.unnumbered.leveledFrom level =
      (t.leveledFrom level).map fun p => (p.1, p.2.unnumbered) := by
  cases t with
  | node root children =>
    rw [unnumbered_node, leveledFrom, leveledFrom, leveledAllFrom_unnumbered]
    rfl

theorem leveledAllFrom_unnumbered (level : Nat) (ts : List Tree) :
    leveledAllFrom level (ts.map unnumbered) =
      (leveledAllFrom level ts).map fun p => (p.1, p.2.unnumbered) := by
  cases ts with
  | nil => rfl
  | cons t ts =>
    rw [List.map_cons, leveledAllFrom, leveledAllFrom, List.map_append, leveledFrom_unnumbered,
      leveledAllFrom_unnumbered]

end

theorem head?_leveledFrom (level : Nat) (t : Tree) :
    (t.leveledFrom level).head? = some (level, t.root) := by
  cases t
  rfl

/-- Trees at one level end where the level falls below theirs. -/
theorem leveledAllFrom_append_inj {ts us : List Tree} {level : Nat} {r r' : List (Nat × Node)}
    (each : ∀ t ∈ ts, ∀ u r r', (∀ p ∈ r.head?, p.1 ≤ level) → (∀ p ∈ r'.head?, p.1 ≤ level) →
      t.leveledFrom level ++ r = u.leveledFrom level ++ r' → t = u ∧ r = r')
    (hr : ∀ p ∈ r.head?, p.1 < level) (hr' : ∀ p ∈ r'.head?, p.1 < level)
    (h : leveledAllFrom level ts ++ r = leveledAllFrom level us ++ r') : ts = us ∧ r = r' := by
  have first (t : Tree) (ts : List Tree) (r : List (Nat × Node)) :
      (leveledAllFrom level (t :: ts) ++ r).head? = some (level, t.root) := by
    simp [leveledAllFrom, head?_leveledFrom]
  have behind {r : List (Nat × Node)} (hr : ∀ p ∈ r.head?, p.1 < level) (ts : List Tree) :
      ∀ p ∈ (leveledAllFrom level ts ++ r).head?, p.1 ≤ level := by
    cases ts with
    | nil => exact fun p hp => Nat.le_of_lt (hr p hp)
    | cons t ts =>
      intro p hp
      rw [first] at hp
      cases hp
      exact Nat.le_refl _
  induction ts generalizing us with
  | nil =>
    cases us with
    | nil => exact ⟨rfl, h⟩
    | cons u us =>
      rw [leveledAllFrom, List.nil_append] at h
      exact absurd (hr _ (h ▸ first u us r')) (Nat.lt_irrefl _)
  | cons t ts ih =>
    cases us with
    | nil =>
      have := first t ts r
      rw [h] at this
      exact absurd (hr' _ this) (Nat.lt_irrefl _)
    | cons u us =>
      rw [List.forall_mem_cons] at each
      rw [leveledAllFrom, leveledAllFrom, List.append_assoc, List.append_assoc] at h
      obtain ⟨rfl, rest⟩ := each.1 u _ _ (behind hr ts) (behind hr' us) h
      obtain ⟨rfl, same⟩ := ih each.2 rest
      exact ⟨rfl, same⟩

/-- The levels tell which node is below which. -/
theorem leveledFrom_append_inj (t : Tree) : ∀ level u r r', (∀ p ∈ r.head?, p.1 ≤ level) →
    (∀ p ∈ r'.head?, p.1 ≤ level) →
    t.leveledFrom level ++ r = u.leveledFrom level ++ r' → t = u ∧ r = r' := by
  induction t using ofChildren with
  | step root children ih =>
    rintro level ⟨root', children'⟩ r r' hr hr' h
    rw [leveledFrom, leveledFrom] at h
    obtain ⟨same, below⟩ := List.cons.inj h
    obtain rfl : root = root' := congrArg Prod.snd same
    obtain ⟨rfl, rest⟩ := leveledAllFrom_append_inj (fun c hc => ih c hc (level + 1))
      (fun p hp => Nat.lt_succ_of_le (hr p hp)) (fun p hp => Nat.lt_succ_of_le (hr' p hp)) below
    exact ⟨rfl, rest⟩

/-! ## Outlines -/

theorem splitOn_join {lines : List String} (h : ∀ l ∈ lines, OneLine l) :
    (String.join (lines.map (· ++ "\n"))).toList.splitOn '\n' =
      lines.map String.toList ++ [[]] := by
  induction lines with
  | nil => rfl
  | cons l ls ih =>
    rw [List.forall_mem_cons] at h
    have chars : (String.join ((l :: ls).map (· ++ "\n"))).toList =
        l.toList ++ '\n' :: (String.join (ls.map (· ++ "\n"))).toList := by
      simp [String.join_cons]
    rw [chars, List.splitOn_append_cons_self, List.splitOn_eq_singleton h.1, ih h.2]
    rfl

/-- The lines of an outline are those of the nodes. -/
theorem splitOn_outline (t : Tree) : t.outline.toList.splitOn '\n' =
    (t.leveled.map fun p => (p.2.line p.1).toList) ++ [[]] := by
  rw [outline, splitOn_join, linesAt_eq, List.map_map]
  · rfl
  · intro l hl
    rw [linesAt_eq] at hl
    obtain ⟨p, -, rfl⟩ := List.mem_map.mp hl
    exact p.2.oneLine_line p.1

theorem linesAt_unnumbered (level : Nat) (t : Tree) :
    t.unnumbered.linesAt level = t.linesAt level := by
  rw [linesAt_eq, linesAt_eq, leveledFrom_unnumbered, List.map_map]
  rfl

theorem outline_unnumbered (t : Tree) : t.unnumbered.outline = t.outline := by
  rw [outline, outline, linesAt_unnumbered]

/-- There is one line for each node, in the order of the nodes; and trees have the same outline
only if they differ in numbers at most, whatever the shape and whatever the texts. -/
theorem outline_lossless (t u : Tree) :
    t.outline.toList.splitOn '\n' = (t.leveled.map fun p =>
        (indentation p.1 ++ p.2.summary).toList) ++ [[]] ∧
      t.leveled.map Prod.snd = t.nodes ∧
      (t.outline = u.outline ↔ t.unnumbered = u.unnumbered) := by
  refine ⟨splitOn_outline t, leveledFrom_snd 0 t, fun h => ?_, fun h => ?_⟩
  · have lines : (t.leveled.map fun p => (p.2.line p.1).toList) =
        u.leveled.map fun p => (p.2.line p.1).toList := by
      have split := congrArg (·.toList.splitOn '\n') h
      simp only [splitOn_outline] at split
      exact List.append_cancel_right split
    have nodes := map_eq_of_map_eq (fun p q same => by
      obtain ⟨level, node⟩ := Node.line_inj (String.toList_inj.mp same)
      exact congrArg₂ Prod.mk level node) lines
    rw [leveled, leveled, ← leveledFrom_unnumbered, ← leveledFrom_unnumbered] at nodes
    have outermost : ∀ p ∈ ([] : List (Nat × Node)).head?, p.1 ≤ 0 := by simp
    exact (leveledFrom_append_inj _ 0 _ [] [] outermost outermost (by rw [nodes])).1
  · rw [← outline_unnumbered, h, outline_unnumbered]

end Tree

end Mamuth
