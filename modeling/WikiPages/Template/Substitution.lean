import WikiPages.Template.Hole

namespace WikiPages

-- Values by key. The keys ascend.
structure Substitution where
  entries : List (Text × Text) := []
  deriving DecidableEq

namespace Substitution

def insertEntry (key value : Text) : List (Text × Text) → List (Text × Text)
  | [] => [(key, value)]
  | (k, v) :: rest =>
    if key = k then (key, value) :: rest
    else if key < k then (key, value) :: (k, v) :: rest
    else (k, v) :: insertEntry key value rest

def insert (σ : Substitution) (key value : Text) : Substitution :=
  ⟨insertEntry key value σ.entries⟩

def insertAll (σ : Substitution) (pairs : List (Text × Text)) : Substitution :=
  pairs.foldl (fun σ (key, value) => σ.insert key value) σ

def ofList (pairs : List (Text × Text)) : Substitution := insertAll {} pairs

def lookup (σ : Substitution) (key : Text) : Option Text := σ.entries.lookup key

-- Every hole whose inside is a key filled with its value, key after key.
def apply (σ : Substitution) (s : Text) : Text :=
  σ.entries.foldl (fun s (key, value) => Text.replaceAll (Hole.of key) value s) s

@[simp] theorem apply_empty (s : Text) : apply {} s = s := rfl

theorem lookup_insertEntry_self (key value : Text) (entries : List (Text × Text)) :
    (insertEntry key value entries).lookup key = some value := by
  induction entries
  case nil => simp [insertEntry]
  case cons e rest hi =>
    obtain ⟨k, v⟩ := e
    simp only [insertEntry]
    split
    case isTrue => exact List.lookup_cons_self
    case isFalse other =>
      split
      · exact List.lookup_cons_self
      · simp [List.lookup_cons, beq_eq_false_iff_ne.2 other, hi]

@[simp]
theorem lookup_insert_self (σ : Substitution) (key value : Text) :
    (σ.insert key value).lookup key = some value :=
  lookup_insertEntry_self key value σ.entries

theorem lookup_insertEntry_of_ne {key other : Text} (h : other ≠ key) (value : Text)
    (entries : List (Text × Text)) :
    (insertEntry key value entries).lookup other = entries.lookup other := by
  have hb : (other == key) = false := beq_eq_false_iff_ne.2 h
  induction entries
  case nil => simp [insertEntry, List.lookup_cons, hb]
  case cons e rest hi =>
    obtain ⟨k, v⟩ := e
    simp only [insertEntry]
    split
    case isTrue hk =>
      subst hk
      simp [List.lookup_cons, hb]
    case isFalse =>
      split
      · simp [List.lookup_cons, hb]
      · simp [List.lookup_cons, hi]

theorem lookup_insert_of_ne {key other : Text} (h : other ≠ key) (σ : Substitution)
    (value : Text) : (σ.insert key value).lookup other = σ.lookup other :=
  lookup_insertEntry_of_ne h value σ.entries

end Substitution
end WikiPages
