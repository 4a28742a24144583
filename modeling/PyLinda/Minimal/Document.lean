import Mathlib.Data.List.Forall2
import PyLinda.Wire.Message

/-!
# What comes back of a document

`xmlDocDumpFormatMemory` and `xmlReadMemory` between them keep elements, attributes and
text. An empty text is gone, and between elements there may be white space that nobody
wrote.
-/

namespace PyLinda

/-- `XML_ELEMENT_NODE`. -/
def Xml.isElement : Xml → Bool
  | .node _ _ _ => true
  | .text _ => false

/-- The name of a node; libxml names the text nodes too. -/
def Xml.name : Xml → String
  | .node n _ _ => n
  | .text _ => "text"

/-- The children that are elements. -/
def Xml.elements (children : List Xml) : List Xml := children.filter Xml.isElement

/-- The texts among the children, one after the other. -/
def Xml.content : List Xml → String
  | [] => ""
  | .text s :: xs => s ++ content xs
  | .node _ _ _ :: xs => content xs

/-- What is read of children without elements. -/
def Xml.readText (s : String) : List Xml := if s = "" then [] else [.text s]

/-- White space only. -/
def blank (s : String) : Prop := ∀ ch ∈ s.toList, ch = ' ' ∨ ch = '\n' ∨ ch = '\t' ∨ ch = '\r'

/-- The second document is what is read of the first. -/
inductive Xml.Reparsed : Xml → Xml → Prop
  | plain (name : String) (props : List (String × String)) (written : List Xml) :
    Xml.elements written = [] →
    Reparsed (.node name props written) (.node name props (Xml.readText (Xml.content written)))
  | spaced (name : String) (props : List (String × String)) (written read : List Xml) :
    Xml.elements written ≠ [] →
    List.Forall₂ Reparsed (Xml.elements written) (Xml.elements read) →
    (∀ s, .text s ∈ read → .text s ∈ written ∨ blank s) →
    Reparsed (.node name props written) (.node name props read)

namespace Xml

@[simp] theorem elements_nil : elements [] = [] := rfl

@[simp] theorem elements_node (n : String) (ps : List (String × String)) (cs xs : List Xml) :
    elements (.node n ps cs :: xs) = .node n ps cs :: elements xs := rfl

@[simp] theorem elements_text (s : String) (xs : List Xml) : elements (.text s :: xs) = elements xs :=
  rfl

@[simp] theorem elements_append (xs ys : List Xml) : elements (xs ++ ys) = elements xs ++ elements ys :=
  List.filter_append xs ys

theorem elements_readText (s : String) : elements (readText s) = [] := by
  unfold readText
  split <;> rfl

/-- Name and attributes are read as they were written, and the elements inside one for one. -/
theorem Reparsed.node_inv {n : String} {ps : List (String × String)} {cs : List Xml} {y : Xml}
    (h : Reparsed (.node n ps cs) y) :
    ∃ ds, y = .node n ps ds ∧ List.Forall₂ Reparsed (elements cs) (elements ds) := by
  cases h with
  | plain _ _ _ he => exact ⟨_, rfl, by rw [he, elements_readText]; exact .nil⟩
  | spaced _ _ _ read _ hf _ => exact ⟨read, rfl, hf⟩

/-- The text of an element without other children. -/
theorem Reparsed.text_inv {n : String} {ps : List (String × String)} {s : String} {y : Xml}
    (h : Reparsed (.node n ps [.text s]) y) : y = .node n ps (readText s) := by
  cases h with
  | plain =>
    show Xml.node n ps (readText (s ++ "")) = _
    rw [String.append_empty]
  | spaced _ _ _ _ hne _ _ => exact absurd rfl hne

mutual

/-- The document read when nothing is added between elements. -/
def compact : Xml → Xml
  | .text s => .text s
  | .node n ps cs =>
    .node n ps (if elements cs = [] then readText (content cs) else compactAll cs)

def compactAll : List Xml → List Xml
  | [] => []
  | x :: xs => compact x :: compactAll xs

end

mutual

/-- Every document can be read. -/
theorem reparsed_compact : (x : Xml) → x.isElement → Reparsed x x.compact
  | .text _, h => by cases h
  | .node n ps cs, _ => by
    by_cases he : elements cs = []
    · have hr := Reparsed.plain n ps cs he
      unfold compact
      rw [if_pos he]
      exact hr
    · unfold compact
      rw [if_neg he]
      exact .spaced n ps cs _ he (reparsed_compactAll cs).1 fun s hs =>
        Or.inl ((reparsed_compactAll cs).2 s hs)

theorem reparsed_compactAll : (xs : List Xml) →
    List.Forall₂ Reparsed (elements xs) (elements (compactAll xs)) ∧
      ∀ s, .text s ∈ compactAll xs → .text s ∈ xs
  | [] => ⟨.nil, fun s hs => by cases hs⟩
  | .text t :: xs => by
    obtain ⟨hf, ht⟩ := reparsed_compactAll xs
    refine ⟨hf, fun s hs => ?_⟩
    rcases List.mem_cons.1 hs with he | hs
    · rw [he]
      exact List.mem_cons_self
    · exact List.mem_cons_of_mem _ (ht s hs)
  | .node n ps cs :: xs => by
    obtain ⟨hf, ht⟩ := reparsed_compactAll xs
    refine ⟨.cons (reparsed_compact (.node n ps cs) rfl) hf, fun s hs => ?_⟩
    rcases List.mem_cons.1 hs with he | hs
    · cases he
    · exact List.mem_cons_of_mem _ (ht s hs)

end

end Xml

end PyLinda
