import WikiPages.Proofs.Text.Scan
import WikiPages.Xml.Reader

namespace WikiPages.Xml

open Text

structure IsName (name : Text) : Prop where
  begins : Token.beginsName name = true
  parts  : ∀ c ∈ name, isNameChar c = true ∧ c ≠ ':'

structure IsPlain (t : Text) : Prop where
  notEmpty : t ≠ []
  plain    : ∀ c ∈ t, isChar c = true ∧ c ≠ '<' ∧ c ≠ '&' ∧ c ≠ ']' ∧ c ≠ '\r'

def Source.led (t : Text) : Source → Source
  | text u next => text (t ++ u) next
  | other       => text t other

inductive Written where
  | nil
  | plain (t : Text) (next : Written)
  | cdata (t : Text) (next : Written)
  | element (name : Text) (inner next : Written)

namespace Written

def text : Written → Text
  | nil                     => []
  | plain t next            => t ++ next.text
  | cdata t next            => lit "<![CDATA[" ++ t ++ lit "]]>" ++ next.text
  | element name inner next =>
    lit "<" ++ name ++ lit ">" ++ inner.text ++ lit "</" ++ name ++ lit ">" ++ next.text

def source : Written → Source
  | nil                     => .nil
  | plain t next            => next.source.led t
  | cdata t next            => next.source.led t
  | element name inner next => .element ⟨name, []⟩ inner.source next.source

def beginsPlain : Written → Bool
  | plain .. => true
  | _        => false

def isSound : Written → Bool
  | nil                  => true
  | plain _ next         => next.isSound
  | cdata t next         => t.all isChar && next.isSound
  | element _ inner next => inner.isSound && next.isSound

-- Markup that is well-formed as long as it is sound. No section holds the end of one, and no line break would be read
-- as another one.
inductive Well : Written → Prop
  | nil : Well nil
  | plain {t next} : IsPlain t → next.beginsPlain = false → Well next → Well (plain t next)
  | cdata {t next} : t ≠ [] → cr ∉ t → ¬ lit "]]>" <:+: t → Well next → Well (cdata t next)
  | element {name inner next} : IsName name → Well inner → Well next → Well (element name inner next)

end Written

-- Some well-formed texts: markup with one outermost element, alone or behind a document type that names it.
inductive WellFormed : Text → Prop
  | plain {name w} : IsName name → Written.Well w → w.isSound = true →
    WellFormed (Written.element name w .nil).text
  | typed {name w} : IsName name → Written.Well w → w.isSound = true →
    WellFormed (lit "<!DOCTYPE " ++ name ++ lit ">" ++ (Written.element name w .nil).text)

-- What is asked of a reader of XML 1.0: elements, text and sections are read as they are written, no character that XML
-- does not allow is accepted, and no document type.
structure Reader.Conforms (reader : Reader) : Prop where
  reads   : ∀ {name w}, IsName name → Written.Well w → w.isSound = true →
    reader (Written.element name w .nil).text = some { tag := ⟨name, []⟩, inner := w.source }
  refuses : ∀ {name w}, IsName name → Written.Well w → w.isSound = false →
    reader (Written.element name w .nil).text = none
  untyped : ∀ s, reader (lit "<!DOCTYPE" ++ s) = none

end WikiPages.Xml
