import WikiPages.Proofs.Success
import WikiPages.Proofs.Template.Filling
import WikiPages.Proofs.Template.Showing
import WikiPages.Report
import WikiPages.Site.Basic

namespace WikiPages.Cabinet

open Text

variable {tree : FileTree} {name s language title : Text} {values : Substitution}

theorem length_le_of_has (h : has tree name bundled = true) : name.length ≤ 35 := by
  have hb : ∀ entry ∈ Shelf.bundledTexts, entry.1.length ≤ 35 := by decide
  rw [has, bundled, List.any_cons, List.any_nil, Bool.or_false] at h
  obtain ⟨entry, he, hn⟩ := List.lookup_isSome_iff.mp h
  exact beq_iff_eq.mp hn ▸ hb entry he

theorem length_le_of_page (h : (templates tree bundled).page name values = .ok s) :
    (Identifier.normalize name).length ≤ 30 := by
  cases hb : has tree (fileName name Templates.pageExtension) bundled
  case false =>
    have hm : (templates tree bundled).page name values = .error (.missing _) :=
      congrArg (Except.map values.apply) (find_of_has_eq_false hb)
    rw [hm] at h
    cases h
  case true =>
    have hl := length_le_of_has hb
    rw [fileName, List.length_append] at hl
    have : Templates.pageExtension.length = 5 := rfl
    omega

theorem find_of_lookup (h : Shelf.bundledTexts.lookup name = some s) :
    find tree name bundled = .ok (dropFinalBreak s) := by
  have hh : Shelf.bundled.has tree name = true := Option.isSome_iff_exists.mpr ⟨s, h⟩
  have hl : Shelf.bundled.load tree name = .ok s := by
    simp only [Shelf.bundled, Shelf.load, h]
  rw [bundled, find, if_pos hh, hl]

theorem exists_of_find {texts : List (Text × Text)} (h : find tree name [.memory texts] = .ok s) :
    ∃ text, (name, text) ∈ texts ∧ dropFinalBreak text = s := by
  cases hl : texts.lookup name
  case none =>
    have missing : Shelf.has tree name (.memory texts) = false := by rw [Shelf.has, hl]; rfl
    rw [find_of_has_eq_false (by simp [has, missing])] at h
    cases h
  case some text =>
    have here : Shelf.has tree name (.memory texts) = true := by rw [Shelf.has, hl]; rfl
    have loaded : Shelf.load tree name (.memory texts) = .ok text := by rw [Shelf.load, hl]
    rw [find, if_pos here, loaded] at h
    exact ⟨text, mem_of_lookup hl, Except.ok.inj h⟩

def menuHole : Text := Hole.ofNamed Hole.menuKind (lit "menu-item")

def webPageFoot : Text := lit "\n</main>\n</body>\n</html>"

def webPageEnd : Text :=
  lit "</title>\n</head>\n<body>\n<nav><ul>\n" ++
    (menuHole ++ (lit "\n</ul></nav>\n<main>\n" ++ (Hole.content ++ webPageFoot)))

def webPage (language title : Text) : Text :=
  lit "<!DOCTYPE html>\n<html lang=\"" ++ (language ++
    (lit "\">\n<head>\n<meta charset=\"utf-8\">\n<title>" ++ (title ++ webPageEnd)))

theorem fill_webPageEnd {inside value : Text} (hm : Clash (Hole.of inside) menuHole)
    (hc : Clash (Hole.of inside) Hole.content) :
    replaceAll (Hole.of inside) value webPageEnd = webPageEnd := by
  rw [webPageEnd, Hole.fill_of_free (by decide), menuHole, Hole.ofNamed, Hole.fill_past hm (by decide),
    Hole.fill_of_free (by decide), Hole.content, Hole.fill_past hc (by decide),
    Hole.fill_eq_self (by decide)]

theorem page_webPage (h : '$' ∉ language) :
    (templates tree bundled).page Site.pageTemplate (Site.pageValues language title) =
      .ok (webPage language title) := by
  have hf : find tree (fileName Site.pageTemplate Templates.pageExtension) bundled =
      .ok (webPage (Hole.of (lit "lang")) (Hole.of (lit "title"))) :=
    find_of_lookup (s := webPage (Hole.of (lit "lang")) (Hole.of (lit "title"))) (by decide +kernel)
  have ht (values : Substitution) : (templates tree bundled).page Site.pageTemplate values =
      .ok (values.apply (webPage (Hole.of (lit "lang")) (Hole.of (lit "title")))) :=
    congrArg (Except.map values.apply) hf
  have hv (s : Text) : (Site.pageValues language title).apply s =
      replaceAll (Hole.of (lit "title")) title (replaceAll (Hole.of (lit "lang")) language s) := rfl
  have hl : replaceAll (Hole.of (lit "lang")) language
        (webPage (Hole.of (lit "lang")) (Hole.of (lit "title"))) =
      webPage language (Hole.of (lit "title")) := by
    rw [webPage, Hole.fill_of_free (by decide), Hole.fill_of, Hole.fill_of_free (by decide),
      Hole.fill_past (by decide) (by decide), fill_webPageEnd (by decide) (by decide), webPage]
  have hr : replaceAll (Hole.of (lit "title")) title (webPage language (Hole.of (lit "title"))) =
      webPage language title := by
    rw [webPage, Hole.fill_of_free (by decide), Hole.fill_of_free h, Hole.fill_of_free (by decide),
      Hole.fill_of, fill_webPageEnd (by decide) (by decide), webPage]
  rw [ht, hv, hl, hr]

theorem ofTemplate_webPage (hl : '$' ∉ language) (ht : '$' ∉ title) :
    (Snippet.ofTemplate (webPage language title)).tail = some webPageFoot := by
  have hc {a : Text} (b : Text) (h : '$' ∉ a) : splitOnce? Hole.content (a ++ b) =
      (splitOnce? Hole.content b).map (Prod.map (a ++ ·) id) :=
    splitOnce?_of_free_append h
  have hm : ¬ Hole.content <:+: menuHole ++ lit "\n</ul></nav>\n<main>\n" ++ Hole.content.dropLast := by
    decide
  have he : splitOnce? Hole.content (menuHole ++ (lit "\n</ul></nav>\n<main>\n" ++
      (Hole.content ++ webPageFoot))) = some (menuHole ++ lit "\n</ul></nav>\n<main>\n", webPageFoot) := by
    have := splitOnce?_of_absent (b := webPageFoot) hm
    simp only [List.append_assoc] at this
    exact this
  rw [Snippet.ofTemplate, webPage, hc _ (by decide), hc _ hl, hc _ (by decide), hc _ ht, webPageEnd,
    hc _ (by decide), he]
  rfl

theorem fill_reportSpecification :
    (templates tree bundled).fill Report.specification Report.specificationExtension
      (Substitution.ofList [(lit "title", title)]) =
      .ok (lit "== " ++ (title ++ lit "\n\x7btable|Title|Data inputs|Data outputs\x7d")) := by
  have ht (values : Substitution) :
      (templates tree bundled).fill Report.specification Report.specificationExtension values =
        .ok (values.apply (lit "== " ++ (Hole.of (lit "title") ++
          lit "\n\x7btable|Title|Data inputs|Data outputs\x7d"))) := rfl
  have hv (s : Text) : (Substitution.ofList [(lit "title", title)]).apply s =
      replaceAll (Hole.of (lit "title")) title s := rfl
  rw [ht, hv, Hole.fill_of_free (by decide), Hole.fill_of, Hole.fill_eq_self (by decide)]

end WikiPages.Cabinet
