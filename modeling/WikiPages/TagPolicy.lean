import WikiPages.Text.Case
import WikiPages.Text.Scan

namespace WikiPages

open Text

structure TagPolicy where
  inputTags : List Text
  formTags : List Text
  deriving DecidableEq

namespace TagPolicy

def tags (written : List Text) : List Text := (written.map lowercase).filter (· ≠ [])

def defaultInputTags : List Text := [lit "</button>"]

def defaultFormTags : List Text := [lit "</form>", lit "</fieldset>"]

def ofInputTags (written : List Text) : TagPolicy := ⟨tags written, tags defaultFormTags⟩

def withFormTags (policy : TagPolicy) (written : List Text) : TagPolicy :=
  { policy with formTags := tags written }

instance : Inhabited TagPolicy := ⟨ofInputTags defaultInputTags⟩

def mentions (tags : List Text) (s : Text) : Bool := tags.any fun tag => contains tag (lowercase s)

def isInput (policy : TagPolicy) (s : Text) : Bool := mentions policy.inputTags s

def isForm (policy : TagPolicy) (s : Text) : Bool := mentions policy.formTags s

end TagPolicy
end WikiPages
