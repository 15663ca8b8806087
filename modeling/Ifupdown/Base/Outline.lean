import Mathlib.Data.List.Basic

/-! Trees that are written as indented lines, one line for each node, and how they are read back. -/
namespace Outline

/-- A line and the trees that are indented under it. -/
inductive Tree (α : Type) where
  | node (label : α) (children : List (Tree α))

variable {α : Type}

mutual

def Tree.lines (depth : Nat) : Tree α → List (Nat × α)
  | .node label children => (depth, label) :: lines (depth + 1) children

def lines (depth : Nat) : List (Tree α) → List (Nat × α)
  | [] => []
  | tree :: rest => tree.lines depth ++ lines depth rest

end

mutual

def Tree.All (P : α → Prop) : Tree α → Prop
  | .node label children => P label ∧ All P children

def All (P : α → Prop) : List (Tree α) → Prop
  | [] => True
  | tree :: rest => tree.All P ∧ All P rest

end

/-- The trees behind a line that are deeper than it are its children. -/
def attach (line : Nat × α) (trees : List (Nat × Tree α)) : List (Nat × Tree α) :=
  (line.1, .node line.2 ((trees.takeWhile fun tree => line.1 < tree.1).map Prod.snd)) ::
    trees.dropWhile fun tree => line.1 < tree.1

def readLines (lines : List (Nat × α)) : List (Tree α) := (lines.foldr attach []).map Prod.snd

theorem map_snd_mk (depth : Nat) (forest : List (Tree α)) : (forest.map (Prod.mk depth)).map Prod.snd = forest := by
  rw [List.map_map]
  exact List.map_id forest

section
variable {depth : Nat} {later : List (Nat × Tree α)}

theorem attach_children (label : α) (children : List (Tree α)) (ends : ∀ tree ∈ later.head?, tree.1 ≤ depth) :
    attach (depth, label) (children.map (Prod.mk (depth + 1)) ++ later) = (depth, .node label children) :: later := by
  have deeper : ∀ tree ∈ children.map (Prod.mk (depth + 1)), decide (depth < tree.1) = true := by
    intro tree member
    obtain ⟨child, -, rfl⟩ := List.mem_map.mp member
    exact decide_eq_true (Nat.lt_succ_self depth)
  have stop : later.takeWhile (fun tree => decide (depth < tree.1)) = [] ∧
      later.dropWhile (fun tree => decide (depth < tree.1)) = later := by
    cases later with
    | nil => exact ⟨rfl, rfl⟩
    | cons tree later =>
      have shallow : ¬ depth < tree.1 := Nat.not_lt.mpr (ends tree rfl)
      exact ⟨List.takeWhile_cons_of_neg (by simpa using shallow), List.dropWhile_cons_of_neg (by simpa using shallow)⟩
  unfold attach
  rw [List.takeWhile_append_of_pos deeper, List.dropWhile_append_of_pos deeper, stop.1, stop.2, List.append_nil, map_snd_mk]

theorem head_siblings {forest : List (Tree α)} (ends : ∀ tree ∈ later.head?, tree.1 ≤ depth) :
    ∀ tree ∈ (forest.map (Prod.mk depth) ++ later).head?, tree.1 ≤ depth := by
  cases forest with
  | nil => exact ends
  | cons tree forest =>
    intro first found
    cases found
    exact Nat.le_refl depth

end

mutual

theorem attach_tree {depth : Nat} {later : List (Nat × Tree α)} (tree : Tree α) (ends : ∀ tree ∈ later.head?, tree.1 ≤ depth) :
    (tree.lines depth).foldr attach later = (depth, tree) :: later := by
  match tree with
  | .node label children =>
    rw [Tree.lines, List.foldr_cons, attach_lines children fun tree found => Nat.le_succ_of_le (ends tree found),
      attach_children label children ends]

/-- The lines of trees are read back, whatever follows that is not deeper. -/
theorem attach_lines {depth : Nat} {later : List (Nat × Tree α)} (forest : List (Tree α)) (ends : ∀ tree ∈ later.head?, tree.1 ≤ depth) :
    (lines depth forest).foldr attach later = forest.map (Prod.mk depth) ++ later := by
  match forest with
  | [] => rfl
  | tree :: rest =>
    rw [lines, List.foldr_append, attach_lines rest ends, attach_tree tree (head_siblings ends), List.map_cons, List.cons_append]

end

theorem readLines_lines (depth : Nat) (forest : List (Tree α)) : readLines (lines depth forest) = forest := by
  rw [readLines, attach_lines forest (by simp), List.append_nil, map_snd_mk]

mutual

theorem Tree.All.lines {P : α → Prop} {tree : Tree α} (all : tree.All P) (depth : Nat) : ∀ line ∈ tree.lines depth, P line.2 := by
  match tree, all with
  | .node label children, ⟨own, below⟩ =>
    rw [Tree.lines]
    exact List.forall_mem_cons.mpr ⟨own, All.lines below (depth + 1)⟩

theorem All.lines {P : α → Prop} {forest : List (Tree α)} (all : All P forest) (depth : Nat) :
    ∀ line ∈ lines depth forest, P line.2 := by
  match forest, all with
  | [], _ => exact fun line member => (List.not_mem_nil member).elim
  | tree :: rest, ⟨first, later⟩ =>
    rw [Outline.lines]
    exact List.forall_mem_append.mpr ⟨first.lines depth, later.lines depth⟩

end

/-! Lines as text. -/

section
variable [DecidableEq α] (blank newline : α) (width : Nat)

/-- Each line stands behind `width` blanks for each level and ends with a newline. -/
def text (lines : List (Nat × List α)) : List α :=
  lines.flatMap fun line => List.replicate (width * line.1) blank ++ line.2 ++ [newline]

def readText (text : List α) : List (Nat × List α) :=
  (text.splitOn newline).dropLast.map fun line =>
    ((line.takeWhile (· == blank)).length / width, line.dropWhile (· == blank))

/-- A line that can be told from its indentation and ends where it does. -/
def Flush (label : List α) : Prop := newline ∉ label ∧ label.head? ≠ some blank

variable {blank newline : α} {width : Nat} {lines : List (Nat × List α)}

theorem readText_line {depth : Nat} {label : List α} (wide : 0 < width) (start : label.head? ≠ some blank) :
    (((List.replicate (width * depth) blank ++ label).takeWhile (· == blank)).length / width,
      (List.replicate (width * depth) blank ++ label).dropWhile (· == blank)) = (depth, label) := by
  have blanks : ∀ c ∈ List.replicate (width * depth) blank, (c == blank) = true := by
    intro c member
    rw [(List.mem_replicate.mp member).2]
    exact beq_self_eq_true blank
  have stop : label.takeWhile (· == blank) = [] ∧ label.dropWhile (· == blank) = label := by
    cases label with
    | nil => exact ⟨rfl, rfl⟩
    | cons c rest =>
      have other : ¬ (c == blank) = true := fun same => start (congrArg some (eq_of_beq same))
      exact ⟨List.takeWhile_cons_of_neg other, List.dropWhile_cons_of_neg other⟩
  rw [List.takeWhile_append_of_pos blanks, List.dropWhile_append_of_pos blanks, stop.1, stop.2, List.append_nil,
    List.length_replicate, Nat.mul_div_cancel_left _ wide]

theorem splitOn_text (other : blank ≠ newline) (flush : ∀ line ∈ lines, Flush blank newline line.2) :
    (text blank newline width lines).splitOn newline =
      lines.map (fun line => List.replicate (width * line.1) blank ++ line.2) ++ [[]] := by
  induction lines with
  | nil => rfl
  | cons line lines ih =>
    obtain ⟨first, later⟩ := List.forall_mem_cons.mp flush
    have inside : newline ∉ List.replicate (width * line.1) blank ++ line.2 := by
      rw [List.mem_append, not_or]
      exact ⟨fun member => other (List.mem_replicate.mp member).2.symm, first.1⟩
    have behind := ih later
    unfold text at behind ⊢
    rw [List.flatMap_cons, List.append_assoc _ [newline], List.singleton_append,
      List.splitOn_append_cons_self_of_not_mem inside, behind]
    rfl

theorem readText_text (wide : 0 < width) (other : blank ≠ newline) (flush : ∀ line ∈ lines, Flush blank newline line.2) :
    readText blank newline width (text blank newline width lines) = lines := by
  rw [readText, splitOn_text other flush, List.dropLast_concat, List.map_map]
  refine (List.map_congr_left fun line member => ?_).trans (List.map_id lines)
  exact readText_line wide (flush line member).2

end

end Outline
