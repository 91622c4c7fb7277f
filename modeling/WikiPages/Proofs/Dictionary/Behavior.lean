import WikiPages.Proofs.Dictionary.Aliases

namespace WikiPages.Dictionary

open Text Relation

variable {d : Dictionary} {field source property key last : Text} {value other : Option Text}

def own? (d : Dictionary) (key property : Text) : Option Text := d.values.lookup (key, lowercase property)

-- What the nearest field along the aliases has for a property, beginning with the one of the key.
inductive Nearest (d : Dictionary) (property : Text) : Text → Option Text → Prop
  | own {key value : Text} (has : d.own? key property = some value) : Nearest d property key (some value)
  | next {key source : Text} {value : Option Text} (lacks : d.own? key property = none)
      (step : Next d.aliases key source) (rest : Nearest d property source value) : Nearest d property key value
  | last {key : Text} (lacks : d.own? key property = none) (ends : d.aliases.lookup key = none) :
      Nearest d property key none

namespace Nearest

theorem unique (h : Nearest d property key value) (h' : Nearest d property key other) : value = other := by
  induction h
  case own has =>
    cases h'
    case own has' => exact has.symm.trans has'
    case next lacks _ _ => cases has.symm.trans lacks
    case last lacks _ => cases has.symm.trans lacks
  case next lacks step _ hi =>
    cases h'
    case own has => cases has.symm.trans lacks
    case next step' rest =>
      cases next_rightUnique d.aliases step step'
      exact hi rest
    case last ends => cases step.symm.trans ends
  case last lacks ends =>
    cases h'
    case own has => cases has.symm.trans lacks
    case next step _ => cases step.symm.trans ends
    case last => rfl

theorem of_own (h : d.own? key property ≠ none) : Nearest d property key (d.own? key property) := by
  have ⟨value, hv⟩ := Option.ne_none_iff_exists'.mp h
  exact hv ▸ .own hv

theorem of_end (ends : d.aliases.lookup key = none) : Nearest d property key (d.own? key property) := by
  cases hv : d.own? key property
  case none => exact .last hv ends
  case some => exact .own hv

end Nearest

theorem exists_nearest (property : Text) (hl : Leads d.aliases key last) (ends : d.aliases.lookup last = none) :
    ∃ value, Nearest d property key value := by
  induction hl using ReflTransGen.head_induction_on
  case refl => exact ⟨_, .of_end ends⟩
  case head a b step _ hi =>
    have ⟨value, hv⟩ := hi
    by_cases h : d.own? a property = none
    case pos => exact ⟨value, .next h step hv⟩
    case neg => exact ⟨_, .of_own h⟩

theorem nearest_of_lacking (hl : Leads d.aliases key last) (ends : d.aliases.lookup last = none)
    (lacking : ∀ between next, TransGen (Next d.aliases) key between → Next d.aliases between next →
      d.own? between property = none) :
    Nearest d property key ((d.own? key property).or (d.own? last property)) := by
  induction hl using ReflTransGen.head_induction_on
  case refl =>
    rw [Option.or_self]
    exact .of_end ends
  case head a b step hb hi =>
    cases h : d.own? a property
    case some value => exact .own h
    case none =>
      have rest := hi fun between next hn => lacking between next (.head step hn)
      have same : (d.own? b property).or (d.own? last property) = d.own? last property := by
        rcases ReflTransGen.cases_head hb with rfl | ⟨next, hn, _⟩
        · exact Option.or_self
        · rw [lacking b next (.single step) hn, Option.none_or]
      exact .next h step (same ▸ rest)

theorem resolve_of_alias (h : d.Acyclic) (step : Next d.aliases (fieldKey field) (fieldKey source)) :
    d.resolve field = d.resolve source := by
  have ends : d.aliases.lookup (d.resolve source) = none := (follow_ends (Nat.le_refl _)).resolve_right (h _)
  exact resolve_of_leads h (.head step (leads_follow ..)) ends

-- Where aliases go round in no circle, each field leads to one that is no alias. A field reads what the nearest
-- field has exactly if that is its own or what the last one has; so it does if no alias in between has the property.
-- An alias without the property reads what its source reads exactly if the source has none of its own either, or the
-- same as the last field.
theorem nearest_behavior_iff (h : d.Acyclic) (field property : Text) :
    Leads d.aliases (fieldKey field) (d.resolve field) ∧ d.aliases.lookup (d.resolve field) = none ∧
      (∃ value, Nearest d property (fieldKey field) value ∧
        (d.behavior? field property = value ↔
          d.own? (fieldKey field) property ≠ none ∨ value = d.own? (d.resolve field) property)) ∧
      ((∀ between next, TransGen (Next d.aliases) (fieldKey field) between → Next d.aliases between next →
          d.own? between property = none) →
        Nearest d property (fieldKey field) (d.behavior? field property)) ∧
      ∀ source, Next d.aliases (fieldKey field) (fieldKey source) → d.own? (fieldKey field) property = none →
        (d.behavior? field property = d.behavior? source property ↔
          d.own? (fieldKey source) property = none ∨
            d.own? (fieldKey source) property = d.own? (d.resolve field) property) := by
  have reads (field : Text) : d.behavior? field property =
      (d.own? (fieldKey field) property).or (d.own? (d.resolve field) property) := rfl
  have leads : Leads d.aliases (fieldKey field) (d.resolve field) := leads_follow ..
  have ends : d.aliases.lookup (d.resolve field) = none := (follow_ends (Nat.le_refl _)).resolve_right (h _)
  obtain ⟨value, nearest⟩ := exists_nearest property leads ends
  refine ⟨leads, ends, ⟨value, nearest, ?_⟩, nearest_of_lacking leads ends, fun source step lacks => ?_⟩
  · cases has : d.own? (fieldKey field) property
    case some own =>
      have : value = some own := nearest.unique (.own has)
      simp [reads, has, this]
    case none => simp [reads, has, eq_comm]
  · rw [reads, reads, ← resolve_of_alias h step, lacks, Option.none_or]
    cases d.own? (fieldKey source) property
    case none => simp
    case some => simp [eq_comm]

def relayed : Text :=
  lit "* Post=Mail\n* Mail=Email\n** placeholder: near\n* Email: Where we write\n** placeholder: far"

theorem acyclic_relayed : (parse relayed).Acyclic := by
  have aliases : (parse relayed).aliases = [(lit "mail", lit "email"), (lit "post", lit "mail")] := by
    decide +kernel
  have stuck {aliases : List (Text × Text)} {a b : Text} (hn : aliases.lookup a = none) (hne : a ≠ b) :
      ¬ Leads aliases a b := by
    intro hl
    rcases ReflTransGen.cases_head hl with rfl | ⟨_, hs, _⟩
    · exact hne rfl
    · exact nomatch hn.symm.trans hs
  have empty : ∀ key, ¬ Circle [] key := by
    intro key hc
    have ⟨_, hn, _⟩ := TransGen.head'_iff.mp hc
    cases hn
  have first := (acyclic_cons_iff empty).mpr (stuck (b := lit "post") (a := lit "mail") rfl (by decide))
  have second := (acyclic_cons_iff first).mpr (stuck (b := lit "mail") (a := lit "email") rfl (by decide))
  rwa [Acyclic, aliases]

theorem next_relayed : Next (parse relayed).aliases (fieldKey (lit "Post")) (fieldKey (lit "Mail")) := by
  rw [Next]
  decide +kernel

theorem nearest_behavior_relayed :
    (parse relayed).Acyclic ∧ (parse relayed).own? (fieldKey (lit "Post")) description = none ∧
      (parse relayed).behavior? (lit "Post") description = (parse relayed).behavior? (lit "Mail") description := by
  have lacks : (parse relayed).own? (fieldKey (lit "Post")) description = none := by decide +kernel
  have passed : (parse relayed).own? (fieldKey (lit "Mail")) description = none := by decide +kernel
  have ⟨_, _, _, _, same⟩ := nearest_behavior_iff acyclic_relayed (lit "Post") description
  exact ⟨acyclic_relayed, lacks, (same (lit "Mail") next_relayed lacks).mpr (.inl passed)⟩

-- What a field in between has of its own is not read.
theorem not_behavior_of_source :
    ¬ ∀ s, (parse s).Acyclic → ∀ field source property,
      Next (parse s).aliases (fieldKey field) (fieldKey source) → (parse s).own? (fieldKey field) property = none →
        (parse s).behavior? field property = (parse s).behavior? source property := by
  intro h
  have lacks : (parse relayed).own? (fieldKey (lit "Post")) placeholder = none := by decide +kernel
  have same := h relayed acyclic_relayed (lit "Post") (lit "Mail") placeholder next_relayed lacks
  exact absurd same (by decide +kernel)

end WikiPages.Dictionary
