import WikiPages.Xml.Content

namespace WikiPages.Xml

-- What a reader gives: nodes next to each other, with comments and processing instructions among them.
inductive Source where
  | nil
  | text (t : Text) (next : Source)
  | element (tag : Tag) (inner next : Source)
  | remark (next : Source)
  deriving DecidableEq

namespace Source

def content : Source → Content
  | nil => .nil
  | text t next => .text t next.content
  | element tag inner next => .element tag inner.content next.content
  | remark next => next.content

def remarks (n : Nat) (next : Source) : Source := n.repeat remark next

end Source

def Content.source : Content → Source
  | nil => .nil
  | text t next => .text t next.source
  | element tag inner next => .element tag inner.source next.source

structure Document where
  tag : Tag
  inner : Source
  before : Nat := 0
  behind : Nat := 0
  deriving DecidableEq

-- Reads documents; none if a text is not accepted as one.
abbrev Reader := Text → Option Document

namespace Document

def of (e : Element) : Document := { tag := e.tag, inner := e.inner.source }

def source (d : Document) : Source := .remarks d.before (.element d.tag d.inner (.remarks d.behind .nil))

def root (d : Document) : Element := ⟨d.tag, d.inner.content⟩

def content (d : Document) : Content := .element d.root.tag d.root.inner .nil

end Document

@[simp]
theorem Content.content_source (c : Content) : c.source.content = c := by
  induction c
  case nil => rfl
  case text hi => rw [source, Source.content, hi]
  case element hi hn => rw [source, Source.content, hi, hn]

@[simp]
theorem Source.content_remarks (n : Nat) (s : Source) : (remarks n s).content = s.content := by
  induction n
  case zero => rfl
  case succ hi => exact hi

@[simp]
theorem Document.root_of (e : Element) : (of e).root = e := by
  rw [root, of, Content.content_source]

theorem Document.content_source (d : Document) : d.source.content = d.content := by
  rw [source, Source.content_remarks, Source.content, Source.content_remarks]
  rfl

end WikiPages.Xml
