import WikiPages.Identifier.Basic

namespace WikiPages

structure IdPool where
  issued : List Text := []

namespace IdPool

def numbered (candidate : Text) (n : Nat) : Text := candidate ++ '_' :: Text.ofNat n

def suffixed (candidate : Text) (seq : Int32) : Text := candidate ++ '_' :: Text.ofInt seq.toInt

-- The first free suffix among `tries`. The counter wraps, so that 2³² tries go through all there are.
def freeSuffix (taken : List Text) (candidate : Text) : (tries : Nat) → (seq : Int32) → Option Int32
  | 0, _ => none
  | tries + 1, seq =>
    if taken.contains (suffixed candidate seq) then freeSuffix taken candidate tries (seq + 1)
    else some seq

def freeId? (pool : IdPool) (candidate : Text) : Option Text :=
  if pool.issued.contains candidate then
    (freeSuffix pool.issued candidate Int32.size 1).map (suffixed candidate)
  else some candidate

def issue? (pool : IdPool) (context : Text) : Option (Text × IdPool) :=
  (pool.freeId? (Identifier.normalize context)).map fun id => (id, ⟨id :: pool.issued⟩)

def freeNumber (taken : List Text) (candidate : Text) : (tries start : Nat) → Nat
  | 0, start => start
  | tries + 1, start =>
    if taken.contains (numbered candidate start) then freeNumber taken candidate tries (start + 1)
    else start

-- Among one more numbers than there are ids one is free.
def freeId (pool : IdPool) (candidate : Text) : Text :=
  if pool.issued.contains candidate then
    numbered candidate (freeNumber pool.issued candidate (pool.issued.length + 1) 1)
  else candidate

-- The same with numbers that do not wrap. Below 2³¹ ids there is no difference (`issue?_eq_some`), so pages issue theirs
-- in this way.
def issue (pool : IdPool) (context : Text) : Text × IdPool :=
  let id := pool.freeId (Identifier.normalize context)
  (id, ⟨id :: pool.issued⟩)

-- Where the id of a line comes from: its title or, if it has none, its kind behind a `_`.
def lineContext (kind title : Text) : Text := if title = [] then '_' :: kind else title

def issueFor? (pool : IdPool) (kind title : Text) : Option (Text × IdPool) :=
  pool.issue? (lineContext kind title)

def issueFor (pool : IdPool) (kind title : Text) : Text × IdPool :=
  pool.issue (lineContext kind title)

def contains (pool : IdPool) (id : Text) : Bool := pool.issued.contains id

def size (pool : IdPool) : Nat := pool.issued.length

@[simp]
theorem issued_issue (pool : IdPool) (context : Text) :
    (pool.issue context).2.issued = (pool.issue context).1 :: pool.issued := rfl

end IdPool
end WikiPages
