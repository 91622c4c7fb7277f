import WikiPages.Proofs.Xml.Written
import WikiPages.Report

namespace WikiPages.Xml

open Text

-- What the program writes: text as it is, text in as many CDATA sections as it takes, and elements without attributes.
inductive Markup where
  | nil
  | plain (t : Text) (next : Markup)
  | cdata (t : Text) (next : Markup)
  | element (name : Text) (inner next : Markup)

namespace Markup

def text : Markup → Text
  | nil                     => []
  | plain t next            => t ++ next.text
  | cdata t next            => Report.cdata t ++ next.text
  | element name inner next => Report.element name inner.text ++ next.text

def content : Markup → Content
  | nil                     => .nil
  | plain t next            => .text t next.content
  | cdata t next            => .text t next.content
  | element name inner next => .element ⟨name, []⟩ inner.content next.content

def isApart : Markup → Bool
  | nil | element .. => true
  | plain .. | cdata .. => false

def isSound : Markup → Bool
  | nil                  => true
  | plain _ next         => next.isSound
  | cdata t next         => t.all isChar && next.isSound
  | element _ inner next => inner.isSound && next.isSound

-- Markup whose content can be told from its text.
inductive Well : Markup → Prop
  | nil : Well nil
  | plain {t next} : IsPlain t → next.isApart = true → Well next → Well (plain t next)
  | cdata {t next} : t ≠ [] → cr ∉ t → next.isApart = true → Well next → Well (cdata t next)
  | element {name inner next} : IsName name → Well inner → Well next → Well (element name inner next)

variable {m : Markup} {name t : Text}

theorem led_source (h : m.isApart = true) (t : Text) : m.content.source.led t = .text t m.content.source := by
  cases m
  case nil => rfl
  case element => rfl
  case plain => cases h
  case cdata => cases h

theorem led_led (s : Source) (t u : Text) : (s.led u).led t = s.led (t ++ u) := by
  cases s
  case text => exact congrArg (Source.text · _) (List.append_assoc ..).symm
  case nil => rfl
  case element => rfl
  case remark => rfl

def lead (cut : Bool) : Text := if cut then ['>'] else []

theorem not_infix_lead {s : Text} (cut : Bool) (h : ¬ lit "]]>" <:+: s) : ¬ lit "]]>" <:+: lead cut ++ s := by
  cases cut
  case false => exact h
  case true =>
    rw [lead, if_pos rfl, List.singleton_append, List.infix_cons_iff, not_or]
    exact ⟨fun hp => absurd (List.cons_prefix_cons.mp hp).1 (by decide), h⟩

structure Sections (next w : Written) (s written : Text) : Prop where
  text   : w.text = lit "<![CDATA[" ++ written ++ lit "]]>" ++ next.text
  source : w.source = next.source.led s
  well   : next.Well → w.Well
  sound  : w.isSound = (s.all isChar && next.isSound)
  begins : w.beginsPlain = false

theorem exists_sections (next : Written) (cut : Bool) (s : Text) (given : lead cut ++ s ≠ []) (settled : cr ∉ s) :
    ∃ w, Sections next w (lead cut ++ s) (lead cut ++ replaceAll (lit "]]>") (lit "]]]]><![CDATA[>") s) := by
  have led {cut : Bool} {s : Text} (h : cr ∉ s) : cr ∉ lead cut ++ s := by
    rw [List.mem_append, not_or]
    exact ⟨by cases cut <;> decide, h⟩
  generalize hn : s.length = n
  induction n using Nat.strong_induction_on generalizing s cut
  case _ n hi =>
    cases hs : splitOnce? (lit "]]>") s
    case none =>
      have absent := splitOnce?_eq_none_iff.mp hs
      rw [replaceAll_of_absent absent]
      exact ⟨.cdata (lead cut ++ s) next, rfl, rfl, .cdata given (led settled) (not_infix_lead cut absent), rfl, rfl⟩
    case some found =>
      have ⟨a, b⟩ := found
      have ⟨he, first⟩ := (splitOnce?_eq_some_iff (by decide)).mp hs
      have shorter : b.length < n := by
        rw [← hn, he]
        simp [lit]
        omega
      have split : cr ∉ a ∧ cr ∉ b := by
        rw [he] at settled
        simp only [List.mem_append, not_or] at settled
        exact ⟨settled.1.1, settled.2⟩
      have ⟨w, rest⟩ := hi b.length shorter true b (by simp [lead]) split.2 rfl
      have parts : lead cut ++ s = (lead cut ++ (a ++ lit "]]")) ++ (lead true ++ b) := by
        rw [he]
        simp [lead, lit]
      refine ⟨.cdata (lead cut ++ (a ++ lit "]]")) w, ?_, ?_, fun h => ?_, ?_, rfl⟩
      · rw [Written.text, rest.text, he, replaceAll_of_first (by decide) first]
        simp [lead, lit]
      · rw [Written.source, rest.source, led_led, parts]
      · refine .cdata (by simp [lit]) (led (List.not_mem_append split.1 (by decide))) (not_infix_lead cut first) (rest.well h)
      · rw [Written.isSound, rest.sound, parts, @List.all_append _ _ (lead cut ++ (a ++ lit "]]")), Bool.and_assoc]

theorem Well.exists_written (h : Well m) : ∃ w : Written, w.text = m.text ∧ w.source = m.content.source ∧ w.Well ∧
    w.isSound = m.isSound ∧ (m.isApart = true → w.beginsPlain = false) := by
  induction h
  case nil => exact ⟨.nil, rfl, rfl, .nil, rfl, fun _ => rfl⟩
  case plain t _ ht apart _ hi =>
    have ⟨w, text, source, well, sound, begins⟩ := hi
    refine ⟨.plain t w, congrArg _ text, ?_, .plain ht (begins apart) well, sound, nofun⟩
    rw [Written.source, source, led_source apart]
    rfl
  case cdata t next given settled apart _ hi =>
    have ⟨w, text, source, well, sound, _⟩ := hi
    have ⟨w', sections⟩ := exists_sections w false t given settled
    refine ⟨w', ?_, ?_, sections.well well, ?_, fun _ => sections.begins⟩
    · rw [sections.text, text]
      rfl
    · rw [sections.source, source, led_source apart]
      rfl
    · rw [sections.sound, sound]
      rfl
  case element name inner next hn _ _ hi hi' =>
    have ⟨w, text, source, well, sound, _⟩ := hi
    have ⟨w', text', source', well', sound', _⟩ := hi'
    refine ⟨.element name w w', ?_, ?_, .element hn well well', ?_, fun _ => rfl⟩
    · rw [Written.text, text, text']
      rfl
    · rw [Written.source, source, source']
      rfl
    · rw [Written.isSound, sound, sound']
      rfl

theorem read_element {reader : Reader} (conforms : reader.Conforms) (hn : IsName name) (h : Well m) :
    reader (Report.element name m.text) =
      if m.isSound then some (.of ⟨⟨name, []⟩, m.content⟩) else none := by
  have ⟨w, text, source, well, sound, _⟩ := h.exists_written
  have whole : Report.element name m.text = (Written.element name w .nil).text := by
    rw [Written.text, text]
    exact (List.append_nil _).symm
  rw [whole, ← sound]
  split
  case isTrue hs =>
    rw [conforms.reads hn well hs, source]
    rfl
  case isFalse hs => exact conforms.refuses hn well (Bool.eq_false_iff.mpr hs)

end Markup
end WikiPages.Xml
