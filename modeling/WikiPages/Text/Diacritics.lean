import WikiPages.Text.Basic

namespace WikiPages.Text

-- The characters beyond ASCII whose canonical decomposition begins with an ASCII character, by that
-- character. All else in such a decomposition lies beyond ASCII.
def accented : List (Char × Text) :=
  [(';', "\u037e"),
    ('<', "≮"),
    ('=', "≠"),
    ('>', "≯"),
    ('A', "ÀÁÂÃÄÅĀĂĄǍǞǠǺȀȂȦḀẠẢẤẦẨẪẬẮẰẲẴẶ\u212b"),
    ('B', "ḂḄḆ"),
    ('C', "ÇĆĈĊČḈ"),
    ('D', "ĎḊḌḎḐḒ"),
    ('E', "ÈÉÊËĒĔĖĘĚȄȆȨḔḖḘḚḜẸẺẼẾỀỂỄỆ"),
    ('F', "Ḟ"),
    ('G', "ĜĞĠĢǦǴḠ"),
    ('H', "ĤȞḢḤḦḨḪ"),
    ('I', "ÌÍÎÏĨĪĬĮİǏȈȊḬḮỈỊ"),
    ('J', "Ĵ"),
    ('K', "ĶǨḰḲḴ\u212a"),
    ('L', "ĹĻĽḶḸḺḼ"),
    ('M', "ḾṀṂ"),
    ('N', "ÑŃŅŇǸṄṆṈṊ"),
    ('O', "ÒÓÔÕÖŌŎŐƠǑǪǬȌȎȪȬȮȰṌṎṐṒỌỎỐỒỔỖỘỚỜỞỠỢ"),
    ('P', "ṔṖ"),
    ('R', "ŔŖŘȐȒṘṚṜṞ"),
    ('S', "ŚŜŞŠȘṠṢṤṦṨ"),
    ('T', "ŢŤȚṪṬṮṰ"),
    ('U', "ÙÚÛÜŨŪŬŮŰŲƯǓǕǗǙǛȔȖṲṴṶṸṺỤỦỨỪỬỮỰ"),
    ('V', "ṼṾ"),
    ('W', "ŴẀẂẄẆẈ"),
    ('X', "ẊẌ"),
    ('Y', "ÝŶŸȲẎỲỴỶỸ"),
    ('Z', "ŹŻŽẐẒẔ"),
    ('\x60', "\u1fef"),
    ('a', "àáâãäåāăąǎǟǡǻȁȃȧḁạảấầẩẫậắằẳẵặ"),
    ('b', "ḃḅḇ"),
    ('c', "çćĉċčḉ"),
    ('d', "ďḋḍḏḑḓ"),
    ('e', "èéêëēĕėęěȅȇȩḕḗḙḛḝẹẻẽếềểễệ"),
    ('f', "ḟ"),
    ('g', "ĝğġģǧǵḡ"),
    ('h', "ĥȟḣḥḧḩḫẖ"),
    ('i', "ìíîïĩīĭįǐȉȋḭḯỉị"),
    ('j', "ĵǰ"),
    ('k', "ķǩḱḳḵ"),
    ('l', "ĺļľḷḹḻḽ"),
    ('m', "ḿṁṃ"),
    ('n', "ñńņňǹṅṇṉṋ"),
    ('o', "òóôõöōŏőơǒǫǭȍȏȫȭȯȱṍṏṑṓọỏốồổỗộớờởỡợ"),
    ('p', "ṕṗ"),
    ('r', "ŕŗřȑȓṙṛṝṟ"),
    ('s', "śŝşšșṡṣṥṧṩ"),
    ('t', "ţťțṫṭṯṱẗ"),
    ('u', "ùúûüũūŭůűųưǔǖǘǚǜȕȗṳṵṷṹṻụủứừửữự"),
    ('v', "ṽṿ"),
    ('w', "ŵẁẃẅẇẉẘ"),
    ('x', "ẋẍ"),
    ('y', "ýÿŷȳẏẙỳỵỷỹ"),
    ('z', "źżžẑẓẕ")].map fun (base, marked) => (base, lit marked)

def asciiBase? (c : Char) : Option Char :=
  if c.toNat < 128 then some c
  else (accented.find? fun row => c ∈ row.2).map (·.1)

def unaccented (s : Text) : Text := s.filterMap asciiBase?

theorem asciiBase?_of_ascii {c : Char} (h : c.toNat < 128) : asciiBase? c = some c := by
  simp [asciiBase?, h]

theorem accented_ascii : ∀ row ∈ accented, row.1.toNat < 128 := by decide

theorem ascii_of_asciiBase? {c d : Char} (h : asciiBase? c = some d) : d.toNat < 128 := by
  unfold asciiBase? at h
  split at h
  · cases h
    assumption
  · obtain ⟨row, hrow, rfl⟩ := Option.map_eq_some_iff.1 h
    exact accented_ascii row (List.mem_of_find?_eq_some hrow)

theorem unaccented_ascii (s : Text) : ∀ c ∈ unaccented s, c.toNat < 128 := by
  intro c hc
  obtain ⟨_, _, h⟩ := List.mem_filterMap.1 hc
  exact ascii_of_asciiBase? h

@[simp]
theorem unaccented_append (s t : Text) : unaccented (s ++ t) = unaccented s ++ unaccented t :=
  List.filterMap_append

end WikiPages.Text
