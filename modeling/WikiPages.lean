import WikiPages.Main
import WikiPages.Proofs.Dictionary.Aliases
import WikiPages.Proofs.Expansion.Stripping
import WikiPages.Proofs.Expansion.Values
import WikiPages.Proofs.Identifier.Wrapping
import WikiPages.Proofs.Page.Nesting
import WikiPages.Proofs.Report.Listing
import WikiPages.Proofs.Site.Saving
import WikiPages.Proofs.Specification.Reading
import WikiPages.Proofs.Specification.Naming
import WikiPages.Proofs.Site.Building
import WikiPages.Proofs.Site.Slot
import WikiPages.Proofs.Template.Clean
import WikiPages.Proofs.Template.AtOnce
import WikiPages.Proofs.Xml.Lacking
import WikiPages.Proofs.Specification.Lacking
import WikiPages.Proofs.Expansion.Running
import WikiPages.Proofs.Expansion.AtOnce
import WikiPages.Proofs.Expansion.Counting
import WikiPages.Proofs.Site.Counting
import WikiPages.Proofs.Report.RoundTrip
import WikiPages.Proofs.Site.Independence
import WikiPages.Proofs.Site.FreeText
import WikiPages.Proofs.Site.BoundValues
import WikiPages.Proofs.Xml.Reading
import WikiPages.Proofs.Binding.Precedence
import WikiPages.Proofs.Expansion.Issuing
import WikiPages.Proofs.Html.Cleaning
import WikiPages.Proofs.Menu.Ids
import WikiPages.Proofs.Page.Ids
import WikiPages.Proofs.Site.Ids
import WikiPages.Proofs.Specification.Trailing
import WikiPages.Proofs.Specification.Locating
import WikiPages.Proofs.Expansion.Fields
import WikiPages.Proofs.Binding.Indentation
import WikiPages.Proofs.Cleanup.Heads
import WikiPages.Proofs.Dictionary.Behavior
import WikiPages.Proofs.Expansion.Requests
import WikiPages.Proofs.Identifier.Stable
import WikiPages.Proofs.Template.Literal
import WikiPages.Proofs.Cleanup.Repeating
import WikiPages.Proofs.Template.Chain
import WikiPages.Proofs.Site.LineEnds
import WikiPages.Proofs.Dictionary.Printing
import WikiPages.Proofs.Identifier.Untitled
import WikiPages.Proofs.Page.WellFormed
import WikiPages.Proofs.Specification.Markers
