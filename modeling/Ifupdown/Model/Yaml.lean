import Ifupdown.Base.Text

/-! The documents of yaml-base.c and the writer of yaml-writer.c. -/
namespace Ifupdown

/-- `enum lif_yaml_value`, with the member of the union that belongs to the type. -/
inductive LifYamlValue where
  | string (strValue : Str)
  | list
  | object
  | boolean (boolValue : Bool)
  deriving DecidableEq

inductive LifYamlNode where
  | node (name : Option Str) (value : LifYamlValue) (children : List LifYamlNode)

def lifYamlNodeNewBoolean (name : Option Str) (value : Bool) : LifYamlNode := .node name (.boolean value) []

def lifYamlNodeNewString (name : Option Str) (value : Str) : LifYamlNode := .node name (.string value) []

def lifYamlNodeNewObject (name : Option Str) : LifYamlNode := .node name .object []

def lifYamlNodeNewList (name : Option Str) : LifYamlNode := .node name .list []

def lifYamlNodeAppendChild : LifYamlNode → LifYamlNode → LifYamlNode
  | .node name value children, child => .node name value (children ++ [child])

def indentWidth : Nat := 2

def padding (indent : Nat) : Str := List.replicate indent 32

def LifYamlValue.written (typeAnnotations : Bool) : LifYamlValue → Str
  | .boolean boolValue =>
    (if typeAnnotations then str "!!bool " else []) ++ (if boolValue then str "true" else str "false")
  | .string strValue => (if typeAnnotations then str "!!str " else []) ++ strValue
  | .object => []
  | .list => []

mutual

def lifYamlWriteNode (typeAnnotations : Bool) (indent : Nat) : LifYamlNode → Str
  | .node name value children =>
    (match name with
      | some name => padding indent ++ name ++ str ": "
      | none => []) ++ value.written typeAnnotations ++ [10] ++
      lifYamlWriteChildren typeAnnotations (value = .list)
        (if value = .list then indent + indentWidth + indentWidth else indent + indentWidth) children

/-- The loop over the children, each behind a dash of its own in a list. -/
def lifYamlWriteChildren (typeAnnotations isList : Bool) (childIndent : Nat) : List LifYamlNode → Str
  | [] => []
  | child :: rest =>
    (if isList then padding (childIndent - indentWidth) ++ str "-\n" else []) ++
      lifYamlWriteNode typeAnnotations childIndent child ++ lifYamlWriteChildren typeAnnotations isList childIndent rest

end

def lifYamlWrite (doc : LifYamlNode) (typeAnnotations : Bool) : Str := lifYamlWriteNode typeAnnotations 0 doc

end Ifupdown
