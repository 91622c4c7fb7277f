import WikiPages.Proofs.Expansion.Steps
import WikiPages.Proofs.Specification.Lacking
import WikiPages.Proofs.Specification.Locating
import WikiPages.Proofs.Specification.Titles

namespace WikiPages

open Text

theorem Parameter.isTrimmed_name (s : Text) : IsTrimmed (parse s).name := by
  have rest : IsTrimmed (splitOverrides (trim s)).2 := by
    rw [splitOverrides]
    split
    case isTrue =>
      split
      · exact isTrimmed_trim _
      · exact isTrimmed_trim s
    case isFalse => exact isTrimmed_trim s
  rw [parse]
  dsimp only
  split
  case h_1 => exact isTrimmed_trim _
  case h_2 => exact rest

theorem Parameter.name_of_mem_list {p : Parameter} {s : Text} (h : p ∈ list s) :
    IsTrimmed p.name ∧ '|' ∉ p.name := by
  have ⟨piece, hf, he⟩ := List.mem_map.mp h
  have ⟨part, hs, ht⟩ := List.mem_map.mp (List.mem_filter.mp hf).1
  have free : '|' ∉ piece := by
    intro hm
    have other := free_of_mem_splitWhere hs '|' ((trim_sublist part).subset (ht ▸ hm))
    cases other
  exact he ▸ ⟨isTrimmed_name piece, (lacks_parse free (by decide)).name⟩

namespace Expander

variable {e : Expander} {block : Block} {p : Parameter} {s : Text}

-- A field is entered with what the dictionary has for it, with the name written behind that. The name is the title of
-- the block exactly if it is not a blank, not a part of what is in front of it and not taken for overrides.
theorem title_inputDirective_iff (hp : p ∈ Parameter.list s)
    (h : Block.ofDirective e.fetch (e.inputDirective p) = .ok block) :
    block.title = p.name ↔ Directive.Shows (e.dictionary.inputOf p.name) p.name := by
  have ⟨trimmed, single⟩ := Parameter.name_of_mem_list hp
  have title : block.title = (e.inputDirective p).title := by
    rcases Block.ofDirective_eq_ok_iff.mp h with ⟨_, he⟩ | ⟨_, _, _, _, he⟩
    · rw [he, Block.withData]
    · rw [he, Block.withData]
  rw [title, inputDirective, Directive.title_ofParts_iff trimmed single]

def choosing : Expander :=
  { ofText "<label>$\x7btitle\x7d</label>" with
    dictionary := Dictionary.set {} (lit "a=b (net %") Dictionary.input (lit "select(class=x)( y )") }

def share : Parameter := Parameter.parse (lit "(required=1) a=b (net % :: wide")

theorem title_inputDirective_share : share ∈ Parameter.list (lit "A | (required=1) a=b (net % :: wide | B") ∧
    share.name = lit "a=b (net %" ∧ choosing.dictionary.inputOf share.name = lit "select(class=x)( y )" ∧
    ∃ block, Block.ofDirective choosing.fetch (choosing.inputDirective share) = .ok block ∧
      block.kind = lit "select" ∧ block.title = share.name := by
  have given : share ∈ Parameter.list (lit "A | (required=1) a=b (net % :: wide | B") := by decide
  have unnamed : (choosing.inputDirective share).locator = none := by decide
  have read := Block.ofDirective_eq_ok_of_locator_eq_none unnamed choosing.fetch
  exact ⟨given, by decide, by decide, _, read, by decide, (title_inputDirective_iff given read).mpr (by decide)⟩

-- A field that ends in what looks like an override loses it, though it is entered as fields are by default.
def ratio : Parameter := Parameter.parse (lit "Ratio a=b")

theorem not_title_inputDirective_ratio : ratio ∈ Parameter.list (lit "Ratio a=b") ∧
    ∃ block, Block.ofDirective (ofText "").fetch ((ofText "").inputDirective ratio) = .ok block ∧
      ratio.name = lit "Ratio a=b" ∧ block.title = lit "Ratio" ∧ block.title ≠ ratio.name := by
  have unnamed : ((ofText "").inputDirective ratio).locator = none := by decide
  have read := Block.ofDirective_eq_ok_of_locator_eq_none unnamed (ofText "").fetch
  exact ⟨by decide, _, read, by decide, by decide, by decide⟩

end Expander
end WikiPages
