import WikiPages.Text.Basic

namespace WikiPages.Xml

structure Tag where
  name : Text
  attributes : List (Text × Text) := []
  deriving DecidableEq

inductive Content where
  | nil
  | text (t : Text) (next : Content)
  | element (tag : Tag) (inner next : Content)
  deriving DecidableEq

namespace Content

def size : Content → Nat
  | nil => 0
  | text _ next => next.size + 1
  | element _ inner next => inner.size + 1 + next.size

def allText : Content → Text
  | nil => []
  | text t next => t ++ next.allText
  | element _ inner next => inner.allText ++ next.allText

end Content

structure Element where
  tag : Tag
  inner : Content
  deriving DecidableEq

def Content.element? (name : Text) : Content → Option Element
  | nil => none
  | text _ next => next.element? name
  | element tag inner next => if tag.name = name then some ⟨tag, inner⟩ else next.element? name

namespace Element

def name (e : Element) : Text := e.tag.name

def attribute? (e : Element) (name : Text) : Option Text := e.tag.attributes.lookup name

def child? (e : Element) (name : Text) : Option Element := e.inner.element? name

def allText (e : Element) : Text := e.inner.allText

end Element
end WikiPages.Xml
