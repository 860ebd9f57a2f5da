import MGServer.Verified.ByteString

/-!
# The parsed tree of tinyxml

The part of `tinyxml/tinyxml.cpp` that the configuration loaders walk: nodes
with their siblings, the element searches and `Attribute`.  A `TiXmlElement*`
is an element together with the siblings after it, which is all that can be
reached from it by `NextSiblingElement`.  Names and attribute values are
`std::string`s, which a numeric character reference can give a NUL; they are
compared and returned as C strings.
-/

namespace MGServer.Ports.TinyXml

open MGServer.Verified.ByteString

/-- `TiXmlNode`, by its type. -/
inductive Node where
  | element (value : Bytes) (attributes : List (Bytes × Bytes)) (children : List Node)
  | comment (text : Bytes)
  | text (text : Bytes)
  | declaration
  | unknown (text : Bytes)

structure Element where
  value : Bytes
  attributes : List (Bytes × Bytes)
  children : List Node

/-- An element among its siblings. -/
structure ElementPtr where
  element : Element
  next : List Node

def Node.toElement : Node → Option Element
  | .element value attributes children => some ⟨value, attributes, children⟩
  | _ => none

/-- `FirstChildElement()` of a node with these children; also
`NextSiblingElement()` of an element with these siblings after it. -/
def firstChildElement : List Node → Option ElementPtr
  | [] => none
  | node :: rest =>
      match node.toElement with
      | some e => some ⟨e, rest⟩
      | none => firstChildElement rest

/-- `FirstChildElement(name)`. -/
def firstChildElementNamed (name : Bytes) : List Node → Option ElementPtr
  | [] => none
  | node :: rest =>
      match node.toElement with
      | some e =>
          if cstr e.value = name then some ⟨e, rest⟩
          else firstChildElementNamed name rest
      | none => firstChildElementNamed name rest

/-- `Attribute(name)`: the C string of the first attribute so named, or
null. -/
def Element.attribute (e : Element) (name : Bytes) : Option Bytes :=
  (e.attributes.find? fun a => decide (cstr a.1 = name)).map fun a => cstr a.2

/-- The child elements, in order. -/
def elements (nodes : List Node) : List Element := nodes.filterMap Node.toElement

theorem elements_cons_some {node : Node} {e : Element} (h : node.toElement = some e)
    (rest : List Node) : elements (node :: rest) = e :: elements rest := by
  simp [elements, h]

theorem elements_cons_none {node : Node} (h : node.toElement = none)
    (rest : List Node) : elements (node :: rest) = elements rest := by
  simp [elements, h]

/-- The elements from the first one called `name` on. -/
def elementsFrom (name : Bytes) (nodes : List Node) : List Element :=
  (elements nodes).dropWhile fun e => decide (cstr e.value ≠ name)

theorem elementsFrom_eq (name : Bytes) (nodes : List Node) :
    elementsFrom name nodes =
      match firstChildElementNamed name nodes with
      | none => []
      | some p => p.element :: elements p.next := by
  induction nodes with
  | nil => rfl
  | cons node rest ih =>
      cases hNode : node.toElement with
      | none =>
          simp only [firstChildElementNamed, hNode]
          rw [← ih, elementsFrom, elements_cons_none hNode, elementsFrom]
      | some e =>
          simp only [firstChildElementNamed, hNode]
          by_cases hName : cstr e.value = name
          · simp [elementsFrom, elements_cons_some hNode, hName]
          · rw [if_neg hName, ← ih, elementsFrom, elements_cons_some hNode,
              List.dropWhile_cons_of_pos (by simp [hName]), elementsFrom]

end MGServer.Ports.TinyXml
