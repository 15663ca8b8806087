import Ifupdown.Base.Outline
import Ifupdown.Model.Yaml

/-! An annotated document can be read back from its indentation. -/
namespace Ifupdown

mutual

def LifYamlNode.All (P : Option Str → LifYamlValue → Prop) : LifYamlNode → Prop
  | .node name value children => P name value ∧ allYaml P children

def allYaml (P : Option Str → LifYamlValue → Prop) : List LifYamlNode → Prop
  | [] => True
  | child :: rest => child.All P ∧ allYaml P rest

end

/-- The name has no blank in it, and what is written stays on its line. -/
def OneLine (name : Option Str) (value : LifYamlValue) : Prop :=
  (∃ text, name = some text ∧ 32 ∉ text ∧ 10 ∉ text) ∧ ∀ text, value = .string text → 10 ∉ text

mutual

/-- Nothing is written that tells an empty list from an empty object. -/
def LifYamlNode.canonical : LifYamlNode → LifYamlNode
  | .node name value children =>
    .node name (if value = .list ∧ children.isEmpty then .object else value) (canonicals children)

def canonicals : List LifYamlNode → List LifYamlNode
  | [] => []
  | child :: rest => child.canonical :: canonicals rest

end

/-- The name stands before the first blank, without its colon, and the value behind its tag. -/
def readYamlLine (line : Str) : Option (Str × LifYamlValue) :=
  let name := line.takeWhile (· != 32)
  let value := (line.dropWhile (· != 32)).drop 1
  if name.getLast? ≠ some 58 then none
  else if value = [] then some (name.dropLast, .object)
  else if value = str "!!bool true" then some (name.dropLast, .boolean true)
  else if value = str "!!bool false" then some (name.dropLast, .boolean false)
  else if (str "!!str ").isPrefixOf value then some (name.dropLast, .string (value.drop 6))
  else none

def isDashed : List (Outline.Tree Str) → Bool
  | [] => false
  | .node label _ :: _ => label == str "-"

mutual

def readYamlNode : Outline.Tree Str → Option LifYamlNode
  | .node label children =>
    match readYamlLine label with
    | none => none
    | some (name, value) =>
      if isDashed children then (readYamlMembers children).map fun children => .node (some name) .list children
      else (readYamlNodes children).map fun children => .node (some name) value children

def readYamlNodes : List (Outline.Tree Str) → Option (List LifYamlNode)
  | [] => some []
  | tree :: rest =>
    match readYamlNode tree, readYamlNodes rest with
    | some node, some nodes => some (node :: nodes)
    | _, _ => none

def readYamlMembers : List (Outline.Tree Str) → Option (List LifYamlNode)
  | [] => some []
  | .node label below :: rest =>
    match readYamlNodes below, readYamlMembers rest with
    | some [node], some nodes => if label = str "-" then some (node :: nodes) else none
    | _, _ => none

end

def readYaml (text : Str) : Option (List LifYamlNode) :=
  readYamlNodes (Outline.readLines (Outline.readText 32 10 indentWidth text))

def yamlLine (name : Option Str) (value : LifYamlValue) : Str := name.getD [] ++ str ": " ++ value.written true

mutual

def LifYamlNode.outline : LifYamlNode → Outline.Tree Str
  | .node name value children =>
    .node (yamlLine name value) (if value = .list then dashed children else outlines children)

def outlines : List LifYamlNode → List (Outline.Tree Str)
  | [] => []
  | child :: rest => child.outline :: outlines rest

def dashed : List LifYamlNode → List (Outline.Tree Str)
  | [] => []
  | child :: rest => .node (str "-") [child.outline] :: dashed rest

end

section
variable {name : Option Str} {value : LifYamlValue} {text : Str} {children : List LifYamlNode}

theorem written_oneLine (short : ∀ text, value = .string text → 10 ∉ text) : 10 ∉ value.written true := by
  cases value with
  | string text =>
    intro member
    rcases List.mem_append.mp member with tag | inside
    · revert tag
      decide
    · exact short text rfl inside
  | boolean flag => cases flag <;> decide
  | list => exact List.not_mem_nil
  | object => exact List.not_mem_nil

theorem yamlLine_flush (plain : OneLine name value) : Outline.Flush 32 10 (yamlLine name value) := by
  obtain ⟨⟨text, rfl, blank, newline⟩, short⟩ := plain
  constructor
  · intro member
    rcases List.mem_append.mp member with front | inside
    · rcases List.mem_append.mp front with inside | colon
      · exact newline inside
      · revert colon
        decide
    · exact written_oneLine short inside
  · intro first
    cases text with
    | nil => cases first
    | cons c rest =>
      cases first
      exact blank List.mem_cons_self

theorem yamlLine_split (value : LifYamlValue) (blank : 32 ∉ text) : (yamlLine (some text) value).takeWhile (· != 32) = text ++ [58] ∧
    (yamlLine (some text) value).dropWhile (· != 32) = 32 :: value.written true := by
  have front : ∀ c ∈ text ++ [58], (c != 32) = true := by
    intro c member
    rcases List.mem_append.mp member with inside | colon
    · exact bne_iff_ne.mpr fun same => blank (same ▸ inside)
    · rw [List.mem_singleton.mp colon]
      decide
  have whole : yamlLine (some text) value = (text ++ [58]) ++ 32 :: value.written true := by
    rw [yamlLine, List.append_assoc, List.append_assoc]
    rfl
  rw [whole, List.takeWhile_append_of_pos front, List.dropWhile_append_of_pos front, List.takeWhile_cons_of_neg (by decide),
    List.dropWhile_cons_of_neg (by decide), List.append_nil]
  exact ⟨rfl, rfl⟩

/-- A list is read as an object until its members show. -/
theorem readYamlLine_yamlLine (blank : 32 ∉ text) :
    readYamlLine (yamlLine (some text) value) = some (text, if value = .list then .object else value) := by
  obtain ⟨front, behind⟩ := yamlLine_split value blank
  have colon : ¬ (text ++ [58]).getLast? ≠ some 58 := not_not.mpr List.getLast?_concat
  unfold readYamlLine
  dsimp only
  rw [front, behind, if_neg colon, List.dropLast_concat, List.drop_succ_cons, List.drop_zero]
  cases value with
  | list => rfl
  | object => rfl
  | boolean flag => cases flag <;> rfl
  | string strValue =>
    have tagged : (str "!!str ").isPrefixOf (str "!!str " ++ strValue) = true := List.isPrefixOf_iff_prefix.mpr ⟨strValue, rfl⟩
    have other : ∀ flag : Str, flag.take 3 = [33, 33, 98] → str "!!str " ++ strValue ≠ flag := by
      rintro _ start rfl
      cases start
    have nonempty : str "!!str " ++ strValue ≠ [] := List.append_ne_nil_of_left_ne_nil (by decide) strValue
    have written : LifYamlValue.written true (.string strValue) = str "!!str " ++ strValue := rfl
    rw [written, if_neg nonempty, if_neg (other _ rfl), if_neg (other _ rfl), if_pos tagged]
    rfl

theorem isDashed_outlines : isDashed (outlines children) = false := by
  cases children with
  | nil => rfl
  | cons child rest =>
    obtain ⟨name, value, below⟩ := child
    have blank : 32 ∈ yamlLine name value := List.mem_append_left _ (List.mem_append_right _ (by decide))
    rw [outlines, LifYamlNode.outline, isDashed, beq_eq_false_iff_ne]
    intro same
    rw [same] at blank
    revert blank
    decide

end

mutual

theorem readYamlNode_outline (node : LifYamlNode) (plain : node.All OneLine) : readYamlNode node.outline = some node.canonical := by
  match node, plain with
  | .node _ value children, ⟨⟨⟨name, rfl, blank, _⟩, _⟩, below⟩ =>
    rw [LifYamlNode.outline, readYamlNode, readYamlLine_yamlLine blank, LifYamlNode.canonical]
    dsimp only
    by_cases list : value = .list
    · subst list
      cases children with
      | nil => rfl
      | cons child rest =>
        have dash : isDashed (dashed (child :: rest)) = true := rfl
        rw [if_pos rfl, if_pos rfl, if_pos dash, readYamlMembers_dashed _ below]
        rfl
    · have kept : (if value = .list ∧ children.isEmpty then LifYamlValue.object else value) = value := if_neg fun both => list both.1
      rw [kept, if_neg list, if_neg list, isDashed_outlines, if_neg Bool.false_ne_true, readYamlNodes_outlines _ below]
      rfl

theorem readYamlNodes_outlines (nodes : List LifYamlNode) (plain : allYaml OneLine nodes) :
    readYamlNodes (outlines nodes) = some (canonicals nodes) := by
  match nodes, plain with
  | [], _ => rfl
  | node :: rest, ⟨first, later⟩ =>
    rw [outlines, readYamlNodes, readYamlNode_outline node first, readYamlNodes_outlines rest later]
    rfl

theorem readYamlMembers_dashed (nodes : List LifYamlNode) (plain : allYaml OneLine nodes) :
    readYamlMembers (dashed nodes) = some (canonicals nodes) := by
  match nodes, plain with
  | [], _ => rfl
  | node :: rest, ⟨first, later⟩ =>
    have alone : readYamlNodes [node.outline] = some [node.canonical] := by
      rw [readYamlNodes, readYamlNode_outline node first]
      rfl
    rw [dashed, readYamlMembers, alone, readYamlMembers_dashed rest later]
    rfl

end

abbrev yamlText (lines : List (Nat × Str)) : Str := Outline.text 32 10 indentWidth lines

theorem yamlText_append (first second : List (Nat × Str)) : yamlText (first ++ second) = yamlText first ++ yamlText second :=
  List.flatMap_append

theorem yamlText_cons (depth : Nat) (line : Str) (lines : List (Nat × Str)) :
    yamlText ((depth, line) :: lines) = padding (indentWidth * depth) ++ line ++ [10] ++ yamlText lines := List.flatMap_cons

mutual

/-- The writer indents by the depth in the outline. -/
theorem write_outline (node : LifYamlNode) (plain : node.All OneLine) (depth : Nat) :
    lifYamlWriteNode true (indentWidth * depth) node = yamlText (node.outline.lines depth) := by
  match node, plain with
  | .node _ value children, ⟨⟨⟨name, rfl, _⟩, _⟩, below⟩ =>
    rw [lifYamlWriteNode, LifYamlNode.outline, Outline.Tree.lines, yamlText_cons]
    by_cases list : value = .list
    · have deeper : indentWidth * depth + indentWidth + indentWidth = indentWidth * (depth + 2) := by
        rw [Nat.mul_add, Nat.add_assoc]
        rfl
      rw [if_pos list, if_pos list, deeper, decide_eq_true list, write_dashed children below (depth + 1)]
      simp [yamlLine]
    · have deeper : indentWidth * depth + indentWidth = indentWidth * (depth + 1) := by rw [Nat.mul_add, Nat.mul_one]
      rw [if_neg list, if_neg list, deeper, decide_eq_false list, write_outlines children below (depth + 1)]
      simp [yamlLine]

theorem write_outlines (nodes : List LifYamlNode) (plain : allYaml OneLine nodes) (depth : Nat) :
    lifYamlWriteChildren true false (indentWidth * depth) nodes = yamlText (Outline.lines depth (outlines nodes)) := by
  match nodes, plain with
  | [], _ => rfl
  | node :: rest, ⟨first, later⟩ =>
    rw [lifYamlWriteChildren, outlines, Outline.lines, yamlText_append, write_outline node first depth,
      write_outlines rest later depth]
    rfl

theorem write_dashed (nodes : List LifYamlNode) (plain : allYaml OneLine nodes) (depth : Nat) :
    lifYamlWriteChildren true true (indentWidth * (depth + 1)) nodes = yamlText (Outline.lines depth (dashed nodes)) := by
  match nodes, plain with
  | [], _ => rfl
  | node :: rest, ⟨first, later⟩ =>
    rw [lifYamlWriteChildren, dashed, Outline.lines, Outline.Tree.lines, Outline.lines, Outline.lines, List.append_nil, yamlText_append,
      yamlText_cons, write_outline node first (depth + 1), write_dashed rest later depth]
    have behind : indentWidth * (depth + 1) - indentWidth = indentWidth * depth := by rw [Nat.mul_add, Nat.mul_one, Nat.add_sub_cancel]
    rw [behind, if_pos rfl]
    simp [str]

end

mutual

theorem outline_flush (node : LifYamlNode) (plain : node.All OneLine) : node.outline.All (Outline.Flush 32 10) := by
  match node, plain with
  | .node _ value children, ⟨own, below⟩ =>
    rw [LifYamlNode.outline]
    refine ⟨yamlLine_flush own, ?_⟩
    split
    · exact dashed_flush children below
    · exact outlines_flush children below

theorem outlines_flush (nodes : List LifYamlNode) (plain : allYaml OneLine nodes) :
    Outline.All (Outline.Flush 32 10) (outlines nodes) := by
  match nodes, plain with
  | [], _ => exact trivial
  | node :: rest, ⟨first, later⟩ => exact ⟨outline_flush node first, outlines_flush rest later⟩

theorem dashed_flush (nodes : List LifYamlNode) (plain : allYaml OneLine nodes) :
    Outline.All (Outline.Flush 32 10) (dashed nodes) := by
  match nodes, plain with
  | [], _ => exact trivial
  | node :: rest, ⟨first, later⟩ =>
    exact ⟨⟨⟨by decide, by decide⟩, outline_flush node first, trivial⟩, dashed_flush rest later⟩

end

theorem allYaml_of_forall {P : Option Str → LifYamlValue → Prop} {nodes : List LifYamlNode} (all : ∀ node ∈ nodes, node.All P) :
    allYaml P nodes := by
  induction nodes with
  | nil => exact trivial
  | cons node rest ih =>
    obtain ⟨first, later⟩ := List.forall_mem_cons.mp all
    exact ⟨first, ih later⟩

theorem canonicals_map (nodes : List LifYamlNode) : canonicals nodes = nodes.map LifYamlNode.canonical := by
  induction nodes with
  | nil => rfl
  | cons node rest ih => rw [canonicals, ih, List.map_cons]

theorem write_documents (docs : List LifYamlNode) :
    docs.flatMap (fun doc => lifYamlWrite doc true) = lifYamlWriteChildren true false 0 docs := by
  induction docs with
  | nil => rfl
  | cons doc rest ih =>
    rw [List.flatMap_cons, ih, lifYamlWriteChildren]
    rfl

theorem readYaml_write {docs : List LifYamlNode} (plain : ∀ doc ∈ docs, doc.All OneLine) :
    readYaml (docs.flatMap fun doc => lifYamlWrite doc true) = some (docs.map LifYamlNode.canonical) := by
  have all := allYaml_of_forall plain
  have written : docs.flatMap (fun doc => lifYamlWrite doc true) = yamlText (Outline.lines 0 (outlines docs)) :=
    (write_documents docs).trans (write_outlines docs all 0)
  rw [readYaml, written, Outline.readText_text (by decide) (by decide) ((outlines_flush docs all).lines 0), Outline.readLines_lines,
    readYamlNodes_outlines docs all, canonicals_map]

/-- Documents that are written one behind the other are read back, up to the empty lists; so other documents have another text. -/
theorem yaml_round_trip (docs : List LifYamlNode) (plain : ∀ doc ∈ docs, doc.All OneLine) :
    readYaml (docs.flatMap fun doc => lifYamlWrite doc true) = some (docs.map LifYamlNode.canonical) ∧
      ∀ docs' : List LifYamlNode, (∀ doc ∈ docs', doc.All OneLine) →
        docs'.flatMap (fun doc => lifYamlWrite doc true) = docs.flatMap (fun doc => lifYamlWrite doc true) →
          docs'.map LifYamlNode.canonical = docs.map LifYamlNode.canonical := by
  refine ⟨readYaml_write plain, fun docs' plain' same => ?_⟩
  have read := readYaml_write plain'
  rw [same, readYaml_write plain] at read
  exact (Option.some.inj read).symm

def bridgeDocument : List LifYamlNode :=
  [.node (some (str "br0")) .list [.node (some (str "auto")) (.boolean true) [],
    .node (some (str "ports")) .object [.node (some (str "eth0")) (.string (str "- a: b")) [], .node (some (str "eth1")) .list []]],
    .node (some (str "lo")) .list []]

theorem yaml_round_trip_bridge :
    readYaml (bridgeDocument.flatMap fun doc => lifYamlWrite doc true) = some (bridgeDocument.map LifYamlNode.canonical) :=
  (yaml_round_trip bridgeDocument (by simp [bridgeDocument, LifYamlNode.All, allYaml, OneLine, str])).1

end Ifupdown
