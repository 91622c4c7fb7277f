import WikiPages.Specification.Override

namespace WikiPages

structure Parameter where
  -- The parameter as written.
  raw : Text
  name : Text
  variant : Option Text := none
  overrides : Substitution := {}
  deriving DecidableEq

namespace Parameter

open Text

def variantSeparator : Text := lit "::"

-- The overrides in front of a name, up to the last parenthesis that closes, and the rest.
def splitOverrides (s : Text) : Text × Text :=
  if s.head? = some '(' then
    match splitOnce? [')'] s.reverse with
    | some (rest, groups) => (groups.reverse, trim rest.reverse)
    | none => ([], s)
  else ([], s)

-- Reads a parameter. Further separators inside a variant become dashes.
def parse (s : Text) : Parameter :=
  let raw := trim s
  let (groups, rest) := splitOverrides raw
  let overrides := Substitution.ofList (Override.values (Override.pairs groups))
  match splitOnce? variantSeparator rest with
  | some (name, variant) =>
    let variant := replaceAll variantSeparator ['-'] (trim variant)
    { raw, name := trim name, variant := if variant = [] then none else some variant, overrides }
  | none => { raw, name := rest, overrides }

def style (p : Parameter) : Text := p.variant.getD []

def list (s : Text) : List Parameter :=
  (((split '|' s).map trim).filter (· ≠ [])).map parse

@[simp] theorem raw_parse (s : Text) : (parse s).raw = trim s := by
  unfold parse
  dsimp only
  split <;> rfl

end Parameter
end WikiPages
