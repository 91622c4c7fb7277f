import WikiPages.Site.Setup

namespace WikiPages

open Text

-- The locators that a line can bring up: that of its directive, and those of the input fields that
-- its parameters may become.
def Expander.locators (e : Expander) (line : Text) : List Text :=
  let directive := Directive.parse line
  directive.locator.toList ++ directive.parameters.filterMap fun p => (e.inputDirective p).locator

theorem Expander.mem_locators_of_locator {e : Expander} {line locator : Text}
    (h : (Directive.parse line).locator = some locator) : locator ∈ e.locators line := by
  simp [locators, h]

theorem Expander.mem_locators_of_inputField {e : Expander} {line locator : Text} {p : Parameter}
    (hp : p ∈ (Directive.parse line).parameters)
    (h : (e.inputDirective p).locator = some locator) : locator ∈ e.locators line :=
  List.mem_append_right _ (List.mem_filterMap.2 ⟨p, hp, h⟩)

def Site.locators (site : Site) : List Text :=
  (lines site.specification).flatMap site.expander.locators

def SiteSetup.documents (setup : SiteSetup) (site : Site) : List Text :=
  let report :=
    match site.reportSite [] with
    | .ok report => report.locators
    | .error _ => []
  (site.locators ++ report).map (Path.join (setup.base.getD []))

end WikiPages
