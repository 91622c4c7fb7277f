import WikiPages.Proofs.Text.Lines
import WikiPages.Proofs.Xml.Written

namespace WikiPages.Xml

open Text

namespace Token

variable {name part rest t : Text} {token : Token}

theorem readAll?_of_read? (hne : part ≠ []) (h : read? (part ++ rest) = some (token, rest)) :
    readAll? (part ++ rest) = (readAll? rest).map (token :: ·) :=
  Pattern.whole?_of_hit hne (Pattern.ofReader_of_read h)

theorem qname?_append (n : IsName name) :
    qname? (name ++ '>' :: rest) = some (⟨[], name⟩, '>' :: rest) := by
  have hp : ∀ c ∈ name, (isNameChar c || c == ':') = true := fun c hc => by simp [(n.parts c hc).1]
  have ht : (name ++ '>' :: rest).takeWhile (fun c => isNameChar c || c == ':') = name := by
    rw [List.takeWhile_append_of_pos hp, List.takeWhile_cons_of_neg (by decide), List.append_nil]
  have hd : (name ++ '>' :: rest).dropWhile (fun c => isNameChar c || c == ':') = '>' :: rest := by
    rw [List.dropWhile_append_of_pos hp, List.dropWhile_cons_of_neg (by decide)]
  have hs : split ':' name = [name] := split_of_free fun hc => (n.parts _ hc).2 rfl
  simp only [qname?, ht, hd, hs, n.begins, if_true]

theorem read?_start (n : IsName name) :
    read? ('<' :: (name ++ '>' :: rest)) = some (.start ⟨[], name⟩ [] false, rest) := by
  have hs : start? (name ++ '>' :: rest) = some (.start ⟨[], name⟩ [] false, rest) := by
    simp [start?, qname?_append n, tagInside?, Pattern.whole?]
  have hb := n.begins
  cases name
  case nil => cases hb
  case cons c name =>
    have hb : isNameStart c = true := hb
    rw [List.cons_append] at hs ⊢
    -- no name begins like a declaration, an instruction or an end tag
    rw [read?]
    · exact hs
    all_goals
      intro _ h
      cases h
      cases hb

theorem read?_stop (n : IsName name) :
    read? ('<' :: '/' :: (name ++ '>' :: rest)) = some (.stop ⟨[], name⟩, rest) := by
  have : stop? (name ++ '>' :: rest) = some (.stop ⟨[], name⟩, rest) := by
    rw [stop?, qname?_append n]
    rfl
  exact this

theorem readAll?_start (n : IsName name) :
    readAll? ('<' :: (name ++ '>' :: rest)) =
      (readAll? rest).map (.start ⟨[], name⟩ [] false :: ·) := by
  have hw : '<' :: (name ++ '>' :: rest) = '<' :: (name ++ ['>']) ++ rest := by simp
  rw [hw]
  exact readAll?_of_read? (List.cons_ne_nil _ _) (hw ▸ read?_start n)

theorem readAll?_stop (n : IsName name) :
    readAll? ('<' :: '/' :: (name ++ '>' :: rest)) =
      (readAll? rest).map (.stop ⟨[], name⟩ :: ·) := by
  have hw : '<' :: '/' :: (name ++ '>' :: rest) = '<' :: '/' :: (name ++ ['>']) ++ rest := by simp
  rw [hw]
  exact readAll?_of_read? (List.cons_ne_nil _ _) (hw ▸ read?_stop n)

theorem read?_plain (h : IsPlain t) : read? (t ++ '<' :: rest) = some (.text t, '<' :: rest) := by
  have hp : ∀ c ∈ t, (c != '<') = true := fun c hc => bne_iff_ne.mpr (h.plain c hc).2.1
  have ht : (t ++ '<' :: rest).takeWhile (· != '<') = t := by
    rw [List.takeWhile_append_of_pos hp, List.takeWhile_cons_of_neg (by decide), List.append_nil]
  have hd : (t ++ '<' :: rest).dropWhile (· != '<') = '<' :: rest := by
    rw [List.dropWhile_append_of_pos hp, List.dropWhile_cons_of_neg (by decide)]
  have ha : t.all isChar = true := List.all_eq_true.mpr fun c hc => (h.plain c hc).1
  have hc : contains (lit "]]>") t = false := by
    rw [contains_eq_false_iff]
    intro hx
    exact (h.plain ']' (hx.subset (by decide))).2.2.2.1 rfl
  have : text? (t ++ '<' :: rest) = some (.text t, '<' :: rest) := by
    simp only [text?, ht, hd, ha, hc, Bool.not_false, Bool.and_self, if_true]
  have hn := h.notEmpty
  cases t
  case nil => exact absurd rfl hn
  case cons c t =>
    rw [List.cons_append] at this ⊢
    rw [read?]
    · exact this
    intro _ h
    cases h
    exact (h.plain '<' List.mem_cons_self).2.1 rfl

theorem readAll?_literal (h : ¬ lit "]]>" <:+: t ++ lit "]]") :
    readAll? (lit "<![CDATA[" ++ t ++ lit "]]>" ++ rest) =
      if t.all isChar then (readAll? rest).map (.literal t :: ·) else none := by
  have hs : splitOnce? (lit "]]>") (t ++ lit "]]>" ++ rest) = some (t, rest) :=
    splitOnce?_of_absent h
  have hr : read? (lit "<![CDATA[" ++ t ++ lit "]]>" ++ rest) =
      if t.all isChar then some (.literal t, rest) else none := by
    change literal? (t ++ lit "]]>" ++ rest) = _
    rw [literal?, until?, hs, Option.filter]
    by_cases ha : t.all isChar = true
    · rw [if_pos ha, if_pos ha]
      rfl
    · rw [if_neg ha, if_neg ha]
      rfl
  split
  case isTrue ha =>
    rw [if_pos ha] at hr
    exact readAll?_of_read? (by simp [lit]) hr
  case isFalse ha =>
    rw [if_neg ha] at hr
    apply Pattern.whole?_of_miss
    exact Option.map_eq_none_iff.mpr hr

theorem not_infix_concat {s : Text} (h : ¬ lit "]]>" <:+: s) : ¬ lit "]]>" <:+: s ++ [']'] := by
  rw [List.infix_concat_iff, not_or]
  refine ⟨?_, h⟩
  rintro ⟨front, hf⟩
  have := congrArg List.getLast? hf
  rw [List.getLast?_append_of_ne_nil _ (by decide), List.getLast?_concat] at this
  exact absurd this (by decide)

end Token

namespace Written

variable {w inner next : Written} {name t rest : Text} {tokens tokens' : List Token} {events events' : List Event}

-- What comes of markup in the three steps of reading.
structure Reads (w : Written) (tokens : List Token) (events : List Event) : Prop where
  cut   : ∀ rest, Token.readAll? (w.text ++ '<' :: rest) =
    if w.isSound then (Token.readAll? ('<' :: rest)).map (tokens ++ ·) else none
  check : ∀ bound opened rest, Event.ofTokens? (bound :: opened) (tokens ++ rest) =
    (Event.ofTokens? (bound :: opened) rest).map (events ++ ·)
  build : ∀ outer, events.foldrM (fun event a => a.add event) (Assembly.mk .nil outer) = some ⟨w.source, outer⟩

theorem text_element : (element name inner next).text ++ rest =
    '<' :: (name ++ '>' :: (inner.text ++ '<' :: '/' :: (name ++ '>' :: (next.text ++ rest)))) := by
  simp [text, lit]

theorem exists_of_not_beginsPlain (h : w.beginsPlain = false) (rest : Text) :
    ∃ s, w.text ++ '<' :: rest = '<' :: s := by
  cases w
  case nil => exact ⟨rest, rfl⟩
  case element => exact ⟨_, text_element⟩
  case cdata => exact ⟨_, rfl⟩
  case plain => cases h

theorem enter?_of_no_attributes (bound : Bindings) : Bindings.enter? bound ⟨[], name⟩ [] = some ([], bound) := rfl

theorem add_characters (t : Text) (s : Source) (outer : List (QName × Source)) :
    Assembly.add ⟨s, outer⟩ (.characters t) = some ⟨s.led t, outer⟩ := by
  cases s <;> rfl

namespace Reads

theorem nil : Reads .nil [] [] where
  cut   := fun rest => by simp [text, isSound]
  check := fun bound opened rest => by simp
  build := fun _ => rfl

theorem plain (ht : IsPlain t) (h : next.beginsPlain = false) (r : Reads next tokens events) :
    Reads (.plain t next) (.text t :: tokens) (.characters t :: events) where
  cut   := by
    intro rest
    have ⟨s, hs⟩ := exists_of_not_beginsPlain h rest
    have hr := Token.readAll?_of_read? ht.notEmpty (@Token.read?_plain s _ ht)
    rw [text, List.append_assoc, hs, hr, ← hs, r.cut rest, isSound]
    split
    · rw [Option.map_map]
      rfl
    · rfl
  check := by
    intro bound opened rest
    have hd : decode? t = some t := by
      apply decode_of_plain
      · exact fun h => (ht.plain _ h).2.2.1 rfl
      · exact fun h => (ht.plain _ h).2.2.2.2 rfl
    simp [Event.ofTokens?, hd, r.check, Function.comp_def]
  build := by
    intro outer
    rw [List.foldrM_cons, r.build]
    exact add_characters ..

theorem cdata (hl : cr ∉ t) (ht : ¬ lit "]]>" <:+: t) (r : Reads next tokens events) :
    Reads (.cdata t next) (.literal t :: tokens) (.characters t :: events) where
  cut   := by
    intro rest
    have closed : ¬ lit "]]>" <:+: t ++ lit "]]" := by
      have := Token.not_infix_concat (Token.not_infix_concat ht)
      rwa [List.append_assoc] at this
    rw [text, List.append_assoc, Token.readAll?_literal closed, r.cut, isSound]
    cases t.all isChar
    case false => rfl
    case true =>
      cases next.isSound
      case false => rfl
      case true => cases Token.readAll? ('<' :: rest) <;> rfl
  check := by
    intro bound opened rest
    have hd : decodeLiteral t = t := join_lines hl
    rw [List.cons_append, Event.ofTokens?, r.check, hd, Option.map_map]
    rfl
  build := by
    intro outer
    rw [List.foldrM_cons, r.build]
    exact add_characters ..

theorem element (hn : IsName name) (ri : Reads inner tokens events) (r : Reads next tokens' events') :
    Reads (.element name inner next)
      (.start ⟨[], name⟩ [] false :: (tokens ++ .stop ⟨[], name⟩ :: tokens'))
      (.start ⟨[], name⟩ [] :: (events ++ .stop ⟨[], name⟩ :: events')) where
  cut   := by
    intro rest
    rw [text_element, Token.readAll?_start hn, ri.cut, Token.readAll?_stop hn, r.cut, isSound]
    cases inner.isSound
    case false => rfl
    case true =>
      cases next.isSound
      case false => rfl
      case true => cases Token.readAll? ('<' :: rest) <;> simp
  check := by
    intro bound opened rest
    have hc := ri.check bound (bound :: opened) (.stop ⟨[], name⟩ :: (tokens' ++ rest))
    rw [List.cons_append, List.append_assoc, List.cons_append, Event.ofTokens?, List.headD_cons,
      enter?_of_no_attributes]
    simp [hc, Event.ofTokens?, r.check, Function.comp_def]
  build := by
    intro outer
    rw [List.foldrM_cons, List.foldrM_append, List.foldrM_cons, r.build]
    change (List.foldrM _ (Assembly.mk .nil _) events >>= _) = _
    rw [ri.build]
    exact Assembly.add_start ..

end Reads

theorem Well.exists_reads (h : Well w) : ∃ tokens events, w.Reads tokens events := by
  induction h
  case nil => exact ⟨_, _, .nil⟩
  case plain ht apart _ hi =>
    have ⟨_, _, r⟩ := hi
    exact ⟨_, _, r.plain ht apart⟩
  case cdata _ hl ht _ hi =>
    have ⟨_, _, r⟩ := hi
    exact ⟨_, _, r.cdata hl ht⟩
  case element hn _ _ hi hi' =>
    have ⟨_, _, ri⟩ := hi
    have ⟨_, _, r⟩ := hi'
    exact ⟨_, _, ri.element hn r⟩

theorem text_outermost : (element name w .nil).text =
    '<' :: (name ++ '>' :: (w.text ++ '<' :: '/' :: (name ++ '>' :: []))) := by
  have := @text_element w .nil name []
  rwa [List.append_nil] at this

theorem skip_outermost (hn : IsName name) :
    Document.skipDeclaration? (Document.skipMark (element name w .nil).text) = some (element name w .nil).text := by
  have hb := hn.begins
  cases name
  case nil => cases hb
  case cons c name =>
    have hc : c ≠ '?' := by
      rintro rfl
      cases hb
    rw [text_outermost, List.cons_append, Document.skipMark, if_neg (by simp [Document.byteOrderMark])]
    have (s : Text) : Token.after? "<?xml " ('<' :: c :: s) = none := by
      simp [Token.after?, lit, isPrefixOf?_cons_cons, Ne.symm hc]
    rw [Document.skipDeclaration?, this]

theorem parse?_outermost (hn : IsName name) (h : Well w) : Document.parse? (element name w .nil).text =
    if w.isSound then some { tag := ⟨name, []⟩, inner := w.source } else none := by
  have ⟨tokens, events, r⟩ := h.exists_reads
  have ht : Token.readAll? (element name w .nil).text = if w.isSound then
      some (.start ⟨[], name⟩ [] false :: (tokens ++ [.stop ⟨[], name⟩])) else none := by
    rw [text_outermost, Token.readAll?_start hn, r.cut, Token.readAll?_stop hn]
    cases w.isSound <;> rfl
  have he : Event.ofTokens? [] (.start ⟨[], name⟩ [] false :: (tokens ++ [.stop ⟨[], name⟩])) =
      some (.start ⟨[], name⟩ [] :: (events ++ [.stop ⟨[], name⟩])) := by
    rw [Event.ofTokens?, List.headD_nil, enter?_of_no_attributes]
    simp [Event.ofTokens?, r.check]
  have hd : Document.ofEvents? (.start ⟨[], name⟩ [] :: (events ++ [.stop ⟨[], name⟩])) =
      some { tag := ⟨name, []⟩, inner := w.source } := by
    have hf : (Event.start ⟨[], name⟩ [] :: (events ++ [.stop ⟨[], name⟩])).foldrM
        (fun event a => a.add event) ({} : Assembly) = some ⟨.element ⟨name, []⟩ w.source .nil, []⟩ := by
      rw [List.foldrM_cons, List.foldrM_append]
      change (List.foldrM _ (Assembly.mk .nil [(⟨[], name⟩, .nil)]) events >>= _) = _
      rw [r.build]
      exact Assembly.add_start ..
    rw [Document.ofEvents?, hf]
    rfl
  rw [Document.parse?, skip_outermost hn]
  change (Token.readAll? _ >>= _) = _
  rw [ht]
  cases w.isSound
  case false => rfl
  case true =>
    change (Event.ofTokens? _ _ >>= _) = _
    rw [he]
    exact hd

end Written

theorem Document.conforms_parse? : Reader.Conforms parse? where
  reads   := fun hn h sound => (Written.parse?_outermost hn h).trans (if_pos sound)
  refuses := fun hn h unsound => (Written.parse?_outermost hn h).trans (if_neg (Bool.eq_false_iff.mp unsound))
  untyped := by
    intro s
    have skip : skipDeclaration? (skipMark (lit "<!DOCTYPE" ++ s)) = some (lit "<!DOCTYPE" ++ s) := rfl
    have none : Token.readAll? (lit "<!DOCTYPE" ++ s) = none := Pattern.whole?_of_miss rfl
    simp only [parse?, skip, Option.bind_eq_bind, Option.bind_some, none, Option.bind_none]

end WikiPages.Xml
