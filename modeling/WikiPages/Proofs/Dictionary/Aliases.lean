import Mathlib.Data.List.Induction
import Mathlib.Logic.Relation
import WikiPages.Dictionary
import WikiPages.Proofs.Success
import WikiPages.Proofs.Text.Case

namespace WikiPages.Dictionary

open Text Relation

variable {aliases : List (Text × Text)} {a b field source key : Text} {d : Dictionary}

theorem fieldKey_fieldKey (field : Text) : fieldKey (fieldKey field) = fieldKey field := by
  rw [fieldKey, fieldKey, trim_lowercase_trim, lowercase_lowercase]

def Next (aliases : List (Text × Text)) (a b : Text) : Prop := aliases.lookup a = some b

def Leads (aliases : List (Text × Text)) : Text → Text → Prop := ReflTransGen (Next aliases)

def Circle (aliases : List (Text × Text)) (key : Text) : Prop := TransGen (Next aliases) key key

theorem next_rightUnique (aliases : List (Text × Text)) : Relator.RightUnique (Next aliases) :=
  fun _ _ _ hb hc => Option.some.inj (hb.symm.trans hc)

theorem lookup_filter_key (aliases : List (Text × Text)) (key a : Text) :
    (aliases.filter (·.1 ≠ key)).lookup a = if a = key then none else aliases.lookup a := by
  induction aliases
  case nil => simp
  case cons entry aliases hi =>
    by_cases hk : entry.1 = key
    case pos =>
      rw [List.filter_cons_of_neg (by simpa using hk), hi, List.lookup_cons, hk]
      split
      case isTrue => rfl
      case isFalse hne => rw [beq_eq_false_iff_ne.mpr hne]
    case neg =>
      rw [List.filter_cons_of_pos (by simpa using hk), List.lookup_cons, List.lookup_cons, hi]
      cases ha : a == entry.1
      case false => rfl
      case true => exact (if_neg (beq_iff_eq.mp ha ▸ hk)).symm

theorem next_filter : Next (aliases.filter (·.1 ≠ key)) a b ↔ a ≠ key ∧ Next aliases a b := by
  rw [Next, Next, lookup_filter_key]
  split <;> simp_all

theorem Leads.of_filter : Leads (aliases.filter (·.1 ≠ key)) a b → Leads aliases a b :=
  ReflTransGen.mono (fun _ _ h => (next_filter.mp h).2) a b

theorem Circle.of_filter : Circle (aliases.filter (·.1 ≠ key)) a → Circle aliases a :=
  TransGen.mono (fun _ _ h => (next_filter.mp h).2) a a

theorem leads_follow (steps : Nat) (aliases : List (Text × Text)) (key : Text) :
    Leads aliases key (follow steps aliases key) := by
  induction steps generalizing aliases key
  case zero => exact .refl
  case succ steps hi =>
    rw [follow]
    split
    case h_1 next hn => exact .head hn (hi _ next).of_filter
    case h_2 => exact .refl

theorem follow_ends {steps : Nat} (h : aliases.length ≤ steps) :
    aliases.lookup (follow steps aliases key) = none ∨ Circle aliases (follow steps aliases key) := by
  induction steps generalizing aliases key
  case zero =>
    rw [List.eq_nil_of_length_eq_zero (Nat.le_zero.mp h)]
    exact .inl rfl
  case succ steps hi =>
    rw [follow]
    split
    case h_2 hn => exact .inl hn
    case h_1 next hn =>
      have shorter : (aliases.filter (·.1 ≠ key)).length < aliases.length := by
        exact List.length_filter_lt_length_iff_exists.mpr ⟨(key, next), mem_of_lookup hn, by simp⟩
      have hi := @hi (aliases.filter (·.1 ≠ key)) next (Nat.le_of_lt_succ (Nat.lt_of_lt_of_le shorter h))
      have leads := leads_follow steps (aliases.filter (·.1 ≠ key)) next
      rcases hi with hi | hi
      · rw [lookup_filter_key] at hi
        split at hi
        case isTrue he =>
          rw [he] at leads ⊢
          exact .inr (.head' hn leads.of_filter)
        case isFalse => exact .inl hi
      · exact .inr hi.of_filter

-- Following aliases always ends at a field that is none.
def Settles (d : Dictionary) : Prop := ∀ field, d.aliases.lookup (d.resolve field) = none

def Acyclic (d : Dictionary) : Prop := ∀ key, ¬ Circle d.aliases key

def Keyed (d : Dictionary) : Prop := ∀ a b, Next d.aliases a b → fieldKey a = a

theorem Circle.leads (hc : Circle aliases a) (h : Leads aliases a b) : Circle aliases b := by
  induction h
  case refl => exact hc
  case tail hn hi =>
    have ⟨next, hn', hl⟩ := TransGen.head'_iff.mp hi
    cases next_rightUnique aliases hn hn'
    exact .tail' hl hn

theorem acyclic_iff_settles (k : Keyed d) : d.Acyclic ↔ d.Settles := by
  constructor
  case mp =>
    intro h field
    exact (follow_ends (Nat.le_refl _)).resolve_right (h _)
  case mpr =>
    intro h key hc
    have ⟨next, hn, _⟩ := TransGen.head'_iff.mp hc
    have hc := hc.leads (leads_follow d.aliases.length d.aliases key)
    have ⟨next, hn', _⟩ := TransGen.head'_iff.mp hc
    have he := h key
    rw [resolve, k _ _ hn, hn'] at he
    cases he

section AddAlias

theorem lookup_cons_key (aliases : List (Text × Text)) (a b key : Text) :
    ((a, b) :: aliases).lookup key = if key = a then some b else aliases.lookup key := by
  rw [List.lookup_cons]
  by_cases h : key = a
  · rw [if_pos h, beq_iff_eq.mpr h]
  · rw [if_neg h, beq_eq_false_iff_ne.mpr h]

theorem next_cons {x y : Text} :
    Next ((a, b) :: aliases) x y ↔ x = a ∧ b = y ∨ x ≠ a ∧ Next aliases x y := by
  rw [Next, Next, lookup_cons_key]
  split <;> simp_all

theorem Leads.to_cons (h : Leads aliases key a) : Leads ((a, b) :: aliases) key a := by
  induction h using ReflTransGen.head_induction_on
  case refl => exact .refl
  case head x y hn _ hi =>
    by_cases hx : x = a
    · exact hx ▸ .refl
    · exact .head (next_cons.mpr (.inr ⟨hx, hn⟩)) hi

theorem transGen_of_cons {x y : Text} (h : TransGen (Next ((a, b) :: aliases)) x y) :
    TransGen (Next aliases) x y ∨ Leads aliases x a ∧ Leads aliases b y := by
  induction h
  case single y hn =>
    rcases next_cons.mp hn with ⟨rfl, rfl⟩ | ⟨_, hn⟩
    · exact .inr ⟨.refl, .refl⟩
    · exact .inl (.single hn)
  case tail y z _ hn hi =>
    rcases next_cons.mp hn with ⟨rfl, rfl⟩ | ⟨_, hn⟩
    · exact .inr ⟨hi.elim TransGen.to_reflTransGen And.left, .refl⟩
    · exact hi.imp (·.tail hn) fun ⟨hx, hy⟩ => ⟨hx, hy.tail hn⟩

theorem acyclic_cons_iff (h : ∀ key, ¬ Circle aliases key) :
    (∀ key, ¬ Circle ((a, b) :: aliases) key) ↔ ¬ Leads aliases b a := by
  constructor
  case mp => exact fun hn hl => hn a (.head' (next_cons.mpr (.inl ⟨rfl, rfl⟩)) hl.to_cons)
  case mpr =>
    intro hl key hc
    rcases transGen_of_cons hc with hc | ⟨ha, hb⟩
    · exact h key hc
    · exact hl (hb.trans ha)

-- A field that is an alias already is turned away, though the source is led through it.
def Redirects (d : Dictionary) (field source : Text) : Prop :=
  (∃ old, Next d.aliases (fieldKey field) old) ∧ Leads d.aliases (fieldKey source) (fieldKey field)

theorem addAlias_cases (d : Dictionary) (field source : Text) :
    (d.resolve source = fieldKey field ∧ d.addAlias field source = d) ∨
      (d.resolve source ≠ fieldKey field ∧
        (d.addAlias field source).aliases = (fieldKey field, fieldKey source) :: d.aliases) := by
  have : d.resolve (fieldKey source) = d.resolve source := by rw [resolve, resolve, fieldKey_fieldKey]
  rw [addAlias, this]
  split
  case isTrue h => exact .inl ⟨h, rfl⟩
  case isFalse h => exact .inr ⟨h, rfl⟩

theorem resolve_of_leads (h : d.Acyclic) (hl : Leads d.aliases (fieldKey source) a)
    (hn : d.aliases.lookup a = none) : d.resolve source = a := by
  have he : d.aliases.lookup (d.resolve source) = none :=
    (follow_ends (Nat.le_refl _)).resolve_right (h _)
  have hr : Leads d.aliases (fieldKey source) (d.resolve source) := leads_follow ..
  have stays {x y : Text} (hx : d.aliases.lookup x = none) (hl : Leads d.aliases x y) : x = y := by
    rcases ReflTransGen.cases_head hl with rfl | ⟨_, hn, _⟩
    · rfl
    · cases hx.symm.trans hn
  rcases ReflTransGen.total_of_right_unique (next_rightUnique _) hr hl with hl | hl
  · exact stays he hl
  · exact (stays hn hl).symm

theorem acyclic_addAlias_iff (h : d.Acyclic) (field source : Text) :
    (d.addAlias field source).Acyclic ↔ ¬ d.Redirects field source := by
  rcases addAlias_cases d field source with ⟨hr, he⟩ | ⟨hr, he⟩
  · rw [he]
    refine ⟨fun _ ⟨⟨_, hn⟩, _⟩ => ?_, fun _ => h⟩
    have : d.aliases.lookup (fieldKey field) = none :=
      hr ▸ (follow_ends (Nat.le_refl _)).resolve_right (h _)
    cases this.symm.trans hn
  · rw [Acyclic, he, acyclic_cons_iff h, not_iff_not]
    refine ⟨fun hl => ⟨?_, hl⟩, And.right⟩
    cases hn : d.aliases.lookup (fieldKey field)
    case none => exact absurd (resolve_of_leads h hl hn) hr
    case some old => exact ⟨old, hn⟩

theorem Keyed.addAlias (k : d.Keyed) (field source : Text) : (d.addAlias field source).Keyed := by
  rcases addAlias_cases d field source with ⟨_, he⟩ | ⟨_, he⟩
  · rwa [he]
  · intro a b hn
    rcases next_cons.mp (he ▸ hn) with ⟨rfl, _⟩ | ⟨_, hn⟩
    · exact fieldKey_fieldKey field
    · exact k a b hn

end AddAlias

section AddAll

variable {calls : List (Text × Text)} {n : Nat}

def addAll (calls : List (Text × Text)) : Dictionary :=
  calls.foldl (fun d (field, source) => d.addAlias field source) {}

theorem addAll_concat (calls : List (Text × Text)) (field source : Text) :
    addAll (calls ++ [(field, source)]) = (addAll calls).addAlias field source := by
  rw [addAll, List.foldl_append]
  rfl

theorem keyed_addAll (calls : List (Text × Text)) : (addAll calls).Keyed := by
  induction calls using List.reverseRecOn
  case nil => intro a b hn; cases hn
  case append_singleton calls call hi =>
    rw [addAll_concat]
    exact hi.addAlias call.1 call.2

def Straight (calls : List (Text × Text)) : Prop :=
  ∀ n field source, calls[n]? = some (field, source) → ¬ (addAll (calls.take n)).Redirects field source

theorem addAll_take_succ (h : calls[n]? = some (field, source)) :
    addAll (calls.take (n + 1)) = (addAll (calls.take n)).addAlias field source := by
  rw [List.take_add_one, h]
  exact addAll_concat ..

theorem acyclic_take_iff (calls : List (Text × Text)) :
    (∀ n, (addAll (calls.take n)).Acyclic) ↔ Straight calls := by
  constructor
  case mp =>
    intro h n field source hn
    exact (acyclic_addAlias_iff (h n) field source).mp (addAll_take_succ hn ▸ h (n + 1))
  case mpr =>
    intro h n
    induction n
    case zero =>
      intro key hc
      have ⟨_, hn, _⟩ := TransGen.head'_iff.mp hc
      cases hn
    case succ n hi =>
      cases hn : calls[n]?
      case none =>
        rw [List.take_add_one, hn]
        simpa using hi
      case some call =>
        rw [addAll_take_succ hn]
        exact (acyclic_addAlias_iff hi call.1 call.2).mpr (h n call.1 call.2 hn)

end AddAll

section Parse

variable {other : Dictionary}

def aliasOf? (declaration : Text) : Option (Text × Text) :=
  match declaration.dropWhile (fun c => c != '=' && c != ':') with
  | '=' :: rest => some (fieldKey (declaration.takeWhile fun c => c != '=' && c != ':'), fieldKey rest)
  | _           => none

def aliasLine? (line : Text) : Option (Text × Text) :=
  match trim line with
  | '*' :: '*' :: _      => none
  | '*' :: declaration   => aliasOf? declaration
  | _                    => none

def addAlias? (d : Dictionary) : Option (Text × Text) → Dictionary
  | some (field, source) => d.addAlias field source
  | none                 => d

theorem aliases_addAlias?_congr (h : d.aliases = other.aliases) (call : Option (Text × Text)) :
    (d.addAlias? call).aliases = (other.addAlias? call).aliases := by
  cases call
  case none => exact h
  case some call =>
    have hr (field : Text) : d.resolve field = other.resolve field := by rw [resolve, resolve, h]
    simp only [addAlias?, addAlias, hr]
    split
    · exact h
    · simp [h]

theorem aliases_declare (d : Dictionary) (declaration : Text) :
    (d.declare declaration).1.aliases = (d.addAlias? (aliasOf? declaration)).aliases := by
  rw [declare, aliasOf?]
  split
  case h_1 h => rw [h]; rfl
  case h_2 c rest h =>
    rw [h]
    split
    case isTrue hc => subst hc; rfl
    case isFalse hc =>
      split
      case h_1 he => exact absurd (List.cons.inj he).1 hc
      case h_2 => rfl

theorem aliases_line (r : Reading) (line : Text) :
    (r.line line).dictionary.aliases = (r.dictionary.addAlias? (aliasLine? line)).aliases := by
  rw [Reading.line]
  split
  case h_1 property h =>
    rw [aliasLine?, h]
    split <;> rfl
  case h_2 declaration hn h =>
    have : aliasLine? line = aliasOf? declaration := by
      rw [aliasLine?, h]
      split
      case h_1 he => exact absurd (List.cons.inj he).2 (hn _)
      case h_2 he => rw [(List.cons.inj he).2]
      case h_3 hd => exact absurd rfl (hd _)
    rw [this]
    exact aliases_declare r.dictionary declaration
  case h_3 hn hm =>
    have : aliasLine? line = none := by
      rw [aliasLine?]
      split
      case h_1 h => exact absurd h (hn _)
      case h_2 h => exact absurd h (hm _)
      case h_3 => rfl
    rw [this]
    rfl

def aliasCalls (s : Text) : List (Text × Text) := (lines s).filterMap aliasLine?

theorem aliases_parse (s : Text) : (parse s).aliases = (addAll (aliasCalls s)).aliases := by
  rw [parse, aliasCalls]
  induction lines s using List.reverseRecOn
  case nil => rfl
  case append_singleton lines line hi =>
    rw [List.foldl_append, List.filterMap_append, List.foldl_cons, List.foldl_nil, aliases_line,
      aliases_addAlias?_congr hi]
    cases h : aliasLine? line
    case none => simp [h, addAlias?]
    case some call =>
      have : [line].filterMap aliasLine? = [call] := by simp [h]
      rw [this, addAll_concat]
      rfl

end Parse

-- After each of some calls, following aliases ends at a field that is none, exactly if no call turns away a
-- field that its source is led through. The aliases of a dictionary that is read are those of its lines.
theorem settles_iff (calls : List (Text × Text)) (s : Text) :
    ((∀ n, (addAll (calls.take n)).Settles) ↔ Straight calls) ∧
      (parse s).aliases = (addAll (aliasCalls s)).aliases ∧
      (Straight (aliasCalls s) → (parse s).Settles) := by
  have settles (calls : List (Text × Text)) n :
      (addAll (calls.take n)).Acyclic ↔ (addAll (calls.take n)).Settles :=
    acyclic_iff_settles (keyed_addAll _)
  have straight (calls : List (Text × Text)) :
      (∀ n, (addAll (calls.take n)).Settles) ↔ Straight calls := by
    rw [← acyclic_take_iff]
    exact forall_congr' fun n => (settles calls n).symm
  refine ⟨straight calls, aliases_parse s, fun hs field => ?_⟩
  have := (straight _).mpr hs (aliasCalls s).length field
  rw [List.take_length] at this
  rwa [resolve, aliases_parse]

def moved : Text := lit "* Mail=Email\n* Post=Mail\n* Mail=Inbox"

theorem straight_moved : Straight (aliasCalls moved) := by
  have he : aliasCalls moved =
      [(lit "mail", lit "email"), (lit "post", lit "mail"), (lit "mail", lit "inbox")] := by decide +kernel
  have none_of {aliases : List (Text × Text)} {a b : Text} (h : aliases.lookup a = none) :
      ¬ Next aliases a b :=
    fun hn => nomatch h.symm.trans hn
  rw [he]
  rintro n field source hn ⟨⟨old, ho⟩, hl⟩
  match n with
  | 0 => cases hn; exact none_of (by decide +kernel) ho
  | 1 => cases hn; exact none_of (by decide +kernel) ho
  | 2 =>
    cases hn
    rcases ReflTransGen.cases_head hl with h | ⟨_, h, _⟩
    · exact absurd h (by decide +kernel)
    · exact none_of (by decide +kernel) h
  | n + 3 => cases hn

theorem settles_moved : (parse moved).Settles ∧ (parse moved).resolve (lit "Post") = lit "inbox" :=
  ⟨(settles_iff [] moved).2.2 straight_moved, by decide +kernel⟩

-- A field that is turned away may lead back to itself.
theorem not_settles_turned : ¬ ∀ calls, (addAll calls).Settles := by
  intro h
  have := h [(lit "a", lit "b"), (lit "c", lit "a"), (lit "a", lit "c")] (lit "a")
  exact absurd this (by decide +kernel)

end WikiPages.Dictionary
