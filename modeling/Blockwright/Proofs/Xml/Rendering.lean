import Blockwright.Proofs.Text.Indentation
import Blockwright.Xml.Parser
/-!
# Elements are read back

What is written of an element is read as that element: a name ends where attributes or the bracket begin,
a value is read back up to its closing quotation mark, and the elements inside end at the end tag. So a
text is the text of one element only.
-/

namespace Blockwright.Xml

/-! ## Values are read back -/

/-- The characters that are written in another way. -/
def specials : List Char := ['"', '\'', '&', '<', '>', '\t', '\n', '\r']

theorem escapeChar_of_not_mem {c : Char} (h : c ∉ specials) : escapeChar c = if isAllowed c then [c] else ['\uFFFD'] := by
  simp only [specials, List.mem_cons, List.not_mem_nil, or_false, not_or] at h
  obtain ⟨h₁, h₂, h₃, h₄, h₅, h₆, h₇, h₈⟩ := h
  rw [escapeChar, if_neg h₁, if_neg h₂, if_neg h₃, if_neg h₄, if_neg h₅, if_neg h₆, if_neg h₇, if_neg h₈]

/-- Inside quotation marks an entity is read as its character. -/
theorem data?_entity (entity : List Char) {rest : List Char} {c : Char} (hread : entityAt? (entity ++ rest) = some (c, entity.length))
    (hallowed : isAllowed c = true) :
    data? (.quote '"') 0 ('&' :: (entity ++ rest)) = (data? (.quote '"') 0 rest).map fun (cs, r) => (c :: cs, r) := by
  have hskip : ∀ skipped : List Char, data? (.quote '"') skipped.length (skipped ++ rest) = data? (.quote '"') 0 rest := by
    intro skipped
    induction skipped with
    | nil => rfl
    | cons d ds ih => exact ih
  have hfront : data? (.quote '"') 0 ('&' :: (entity ++ rest)) =
      if isAllowed c then (data? (.quote '"') entity.length (entity ++ rest)).map fun (cs, r) => (c :: cs, r) else none := by
    rw [data?, if_neg (by simp), if_neg (by simp), if_pos (by rfl)]
    · simp only [hread]
    · simp
    · simp
  rw [hfront, if_pos hallowed, hskip]

/-- Inside quotation marks most characters stand for themselves; a bracket pair may stand before a greater sign. -/
theorem data?_cons {c : Char} (h : isAllowed c = true) (hmarks : c ∉ specials) (rest : List Char) :
    data? (.quote '"') 0 (c :: rest) = (data? (.quote '"') 0 rest).map fun (cs, r) => (c :: cs, r) := by
  simp only [specials, List.mem_cons, List.not_mem_nil, or_false, not_or] at hmarks
  obtain ⟨hquote, -, hand, hless, -, -, -, hreturn⟩ := hmarks
  have hend : Until.quote '"' ≠ .quote c := fun heq => hquote (Until.quote.inj heq).symm
  by_cases hpair : ∃ tail, c = ']' ∧ rest = ']' :: '>' :: tail
  · obtain ⟨tail, rfl, rfl⟩ := hpair
    have hbehind : data? (.quote '"') 0 (']' :: '>' :: tail) = (data? (.quote '"') 0 ('>' :: tail)).map fun (cs, r) => (']' :: cs, r) :=
      rfl
    have hgreater : data? (.quote '"') 0 ('>' :: tail) = (data? (.quote '"') 0 tail).map fun (cs, r) => ('>' :: cs, r) := rfl
    rw [hbehind, hgreater, Option.map_map, Option.map_map]
    rfl
  · rw [data?.eq_def]
    split
    · rename_i hskip _
      cases hskip
    · rename_i htext
      exact absurd (List.cons.inj htext).1 hreturn
    · rename_i tail _ htext
      exact absurd ⟨tail, List.cons.inj htext⟩ hpair
    · rename_i d tail _ _ htext
      obtain ⟨rfl, rfl⟩ := List.cons.inj htext
      rw [if_neg hend, if_neg (by simp [hless]), if_neg (by simp [hand]), if_neg (by simp [h])]
      simp only [if_neg hreturn]
    · rename_i htext
      cases htext

theorem data?_escapeChar {c : Char} (h : isAllowed c = true) (rest : List Char) :
    data? (.quote '"') 0 (escapeChar c ++ rest) = (data? (.quote '"') 0 rest).map fun (cs, r) => (c :: cs, r) := by
  by_cases hc : c ∈ specials
  · simp only [specials, List.mem_cons, List.not_mem_nil, or_false] at hc
    rcases hc with rfl | rfl | rfl | rfl | rfl | rfl | rfl | rfl
    · exact data?_entity "#34;".toList rfl rfl
    · exact data?_entity "#39;".toList rfl rfl
    · exact data?_entity "amp;".toList rfl rfl
    · exact data?_entity "lt;".toList rfl rfl
    · exact data?_entity "gt;".toList rfl rfl
    · exact data?_entity "#x9;".toList rfl rfl
    · exact data?_entity "#xA;".toList rfl rfl
    · exact data?_entity "#xD;".toList rfl rfl
  · rw [escapeChar_of_not_mem hc, if_pos h]
    exact data?_cons h hc rest

/-- A text of characters that a document may hold. -/
def isAllowedText (s : String) : Bool := s.toList.all isAllowed

/-- A value that stands in quotation marks is read back up to the second one. -/
theorem data?_escape {s : String} (h : isAllowedText s = true) (rest : List Char) :
    data? (.quote '"') 0 ((escape s).toList ++ '"' :: rest) = some (s.toList, rest) := by
  have hchars := List.all_eq_true.1 h
  rw [escape, String.toList_ofList]
  generalize s.toList = cs at hchars ⊢
  induction cs with
  | nil => rfl
  | cons c cs ih =>
    rw [List.flatMap_cons, List.append_assoc, data?_escapeChar (hchars c List.mem_cons_self),
      ih fun d hd => hchars d (List.mem_cons_of_mem _ hd)]
    rfl

/-! ## Names and tags -/

/-- A text that can stand for the name of an element or of an attribute: letters, at least one. -/
def isLabel (s : String) : Bool := !s.toList.isEmpty && s.toList.all Text.isLetter

theorem exists_letter {s : String} (h : isLabel s = true) :
    ∃ c cs, s.toList = c :: cs ∧ Text.isLetter c = true ∧ ∀ d ∈ s.toList, Text.isLetter d = true := by
  simp only [isLabel, Bool.and_eq_true, Bool.not_eq_true', List.isEmpty_eq_false_iff] at h
  obtain ⟨c, cs, hcs⟩ := List.exists_cons_of_ne_nil h.1
  have hletters := List.all_eq_true.1 h.2
  exact ⟨c, cs, hcs, hletters c (hcs ▸ List.mem_cons_self), hletters⟩

theorem isName_of_isLabel {s : String} (h : isLabel s = true) : isName s.toList = true := by
  obtain ⟨c, cs, hcs, hc, hletters⟩ := exists_letter h
  have hrest : cs.all isNameChar = true := by
    refine List.all_eq_true.2 fun d hd => ?_
    have hletter := hletters d (hcs ▸ List.mem_cons_of_mem _ hd)
    simp [isNameChar, isNameStart, hletter]
  rw [hcs, isName, isNameStart, hc, hrest]
  rfl

/-- A label is a name up to the first character that ends it. -/
theorem qname?_append {s : String} (h : isLabel s = true) {m : Char} (hm : continuesName m = false) (rest : List Char) :
    qname? (s.toList ++ m :: rest) = some (⟨"", s⟩, m :: rest) := by
  obtain ⟨-, -, -, -, hletters⟩ := exists_letter h
  have hgoes : ∀ c ∈ s.toList, continuesName c = true := fun c hc => by
    simp [continuesName, Text.isWordChar, hletters c hc]
  have hfront : (s.toList ++ m :: rest).takeWhile continuesName = s.toList := by
    rw [List.takeWhile_append_of_pos hgoes, List.takeWhile_cons_of_neg (by simp [hm]), List.append_nil]
  have hbehind : (s.toList ++ m :: rest).dropWhile continuesName = m :: rest := by
    rw [List.dropWhile_append_of_pos hgoes, List.dropWhile_cons_of_neg (by simp [hm])]
  have hname : name? (s.toList ++ m :: rest) = some (s.toList, m :: rest) := by
    rw [name?, hfront, hbehind]
    exact if_pos (isName_of_isLabel h)
  have hcolon : ':' ∉ s.toList := fun hmem => absurd (hletters _ hmem) (by decide)
  have hwhole : QName.ofChars? s.toList = some ⟨"", s⟩ := by
    rw [QName.ofChars?, (Text.splitChars_eq_singleton_iff _ _).2 hcolon]
    simp
  rw [qname?, hname]
  simp [hwhole]

/-- Attributes with names and values that can be written. -/
def areWritable (attributes : List (String × String)) : Bool :=
  attributes.all fun a => isLabel a.1 && isAllowedText a.2

theorem toList_renderAttributes_cons (a : String × String) (rest : List (String × String)) (x : List Char) :
    (renderAttributes (a :: rest)).toList ++ x =
      ' ' :: (a.1.toList ++ '=' :: '"' :: ((escape a.2).toList ++ '"' :: ((renderAttributes rest).toList ++ x))) := by
  simp [renderAttributes, String.toList_append]

/-- What is read of a start tag whose next attribute begins here. -/
theorem attributes?_of_isLetter {fuel : Nat} {c : Char} (hc : Text.isLetter c = true) (cs : List Char) :
    attributes? (fuel + 1) (' ' :: c :: cs) = (do
      let (q, rest) ← qname? (c :: cs)
      match skipSpace rest with
      | '=' :: rest =>
        match skipSpace rest with
        | mark :: rest =>
          if mark = '"' || mark = '\'' then
            let (value, rest) ← data? (.quote mark) 0 rest
            let (more, empty, rest) ← attributes? fuel rest
            return ((q.label, String.ofList value) :: more, empty, rest)
          else none
        | [] => none
      | _ => none) := by
  have hspace : skipSpace (' ' :: c :: cs) = c :: cs := by
    have hletter : isSpace c = false := by
      refine Bool.eq_false_iff.2 fun hspace => ?_
      simp only [isSpace, Bool.or_eq_true, beq_iff_eq] at hspace
      rcases hspace with ((rfl | rfl) | rfl) | rfl <;> cases hc
    simp [skipSpace, show isSpace ' ' = true by decide, hletter]
  have hslash : c ≠ '/' := fun h => by cases h ▸ hc
  have hbracket : c ≠ '>' := fun h => by cases h ▸ hc
  rw [attributes?, hspace]
  split
  · rename_i heq
    exact absurd (List.cons.inj heq).1 hslash
  · rename_i heq
    exact absurd (List.cons.inj heq).1 hslash
  · rename_i heq
    exact absurd (List.cons.inj heq).1 hbracket
  · rfl

/-- The attributes of a start tag are read back up to the bracket that closes it. -/
theorem attributes?_render {as : List (String × String)} (h : areWritable as = true) {n : Nat} (hfuel : as.length < n)
    (rest : List Char) : attributes? n ((renderAttributes as).toList ++ '>' :: rest) = some (as, false, rest) := by
  induction as generalizing n with
  | nil =>
    obtain ⟨fuel, rfl⟩ := Nat.exists_eq_add_one.2 hfuel
    rfl
  | cons a as ih =>
    obtain ⟨fuel, rfl⟩ := Nat.exists_eq_add_one.2 (Nat.zero_lt_of_lt hfuel)
    obtain ⟨name, value⟩ := a
    simp only [areWritable, List.all_cons, Bool.and_eq_true] at h
    obtain ⟨c, cs, hcs, hc, -⟩ := exists_letter h.1.1
    have hname := qname?_append h.1.1 (m := '=') rfl
      ('"' :: ((escape value).toList ++ '"' :: ((renderAttributes as).toList ++ '>' :: rest)))
    rw [toList_renderAttributes_cons]
    dsimp only
    rw [hcs, List.cons_append] at hname ⊢
    rw [attributes?_of_isLetter hc, hname]
    have hequals : ∀ cs, skipSpace ('=' :: cs) = '=' :: cs := fun _ => rfl
    have hquote : ∀ cs, skipSpace ('"' :: cs) = '"' :: cs := fun _ => rfl
    simp [hequals, hquote, data?_escape h.1.2, ih h.2 (Nat.lt_of_succ_lt_succ hfuel)]

/-! ## Elements -/

mutual

/-- An element whose names and values can be written, with such elements inside it. -/
def Element.isWritable : Element → Bool
  | .mk name attributes children => isLabel name && areWritable attributes && areAllWritable children

/-- Elements that are all writable. -/
def areAllWritable : List Element → Bool
  | [] => true
  | e :: rest => e.isWritable && areAllWritable rest

end

@[simp] theorem areAllWritable_append (es fs : List Element) :
    areAllWritable (es ++ fs) = (areAllWritable es && areAllWritable fs) := by
  induction es with
  | nil => simp [areAllWritable]
  | cons e es ih => simp [areAllWritable, ih, Bool.and_assoc]

/-- The text of an element behind its first bracket. -/
def Element.behind : Element → List Char
  | .mk name attributes children =>
    name.toList ++ ((renderAttributes attributes).toList ++
      '>' :: ((renderAll children).toList ++ '<' :: '/' :: (name.toList ++ ['>'])))

theorem toList_render (e : Element) : e.render.toList = '<' :: e.behind := by
  obtain ⟨name, attributes, children⟩ := e
  simp [Element.render, Element.behind, String.toList_append]

theorem toList_renderAll_cons (e : Element) (es : List Element) :
    (renderAll (e :: es)).toList = '<' :: (e.behind ++ (renderAll es).toList) := by
  rw [renderAll, String.toList_append, toList_render, List.cons_append]

/-- Behind its first bracket an element begins with a letter. -/
theorem exists_letter_behind {e : Element} (h : e.isWritable = true) : ∃ c cs, e.behind = c :: cs ∧ Text.isLetter c = true := by
  obtain ⟨name, attributes, children⟩ := e
  simp only [Element.isWritable, Bool.and_eq_true] at h
  obtain ⟨c, cs, hcs, hc, -⟩ := exists_letter h.1.1
  rw [Element.behind, hcs, List.cons_append]
  exact ⟨c, _, rfl, hc⟩

theorem length_renderAttributes (as : List (String × String)) : as.length ≤ (renderAttributes as).toList.length := by
  induction as with
  | nil => exact Nat.zero_le _
  | cons a as ih =>
    have hcons := toList_renderAttributes_cons a as []
    rw [List.append_nil] at hcons
    rw [hcons]
    simp only [List.length_cons, List.length_append]
    omega

/-- What is read inside an element where another one begins. -/
theorem content?_of_isLetter {fuel : Nat} {outer : QName} {c : Char} (hc : Text.isLetter c = true) (cs : List Char) :
    content? (fuel + 1) outer ('<' :: c :: cs) = (do
      let (child, rest) ← element? fuel (c :: cs)
      let (children, rest) ← content? fuel outer rest
      return (child :: children, rest)) := by
  have hslash : c ≠ '/' := fun h => by cases h ▸ hc
  have hbang : c ≠ '!' := fun h => by cases h ▸ hc
  have hquestion : c ≠ '?' := fun h => by cases h ▸ hc
  have hdata : data? .tag 0 ('<' :: c :: cs) = some ([], '<' :: c :: cs) := rfl
  rw [content?, hdata]
  simp only [Option.bind_eq_bind, Option.bind_some]
  split
  · rename_i heq
    exact absurd (List.cons.inj (List.cons.inj heq).2).1 hslash
  · rename_i heq
    obtain rfl := (List.cons.inj heq).2
    rw [if_neg (by simp [hbang, hquestion])]
  · rename_i hother
    exact absurd rfl (hother _)

mutual

/-- An element is read back, whatever follows it. -/
theorem element?_behind {e : Element} (h : e.isWritable = true) {n : Nat} (hfuel : e.behind.length < n) (rest : List Char) :
    element? n (e.behind ++ rest) = some (e, rest) := by
  match e, n with
  | .mk name as children, fuel + 1 =>
    simp only [Element.isWritable, Bool.and_eq_true] at h
    have hlength := length_renderAttributes as
    simp only [Element.behind, List.length_append, List.length_cons, List.length_nil] at hfuel
    obtain ⟨m, more, hmore, hm⟩ : ∃ m more, (renderAttributes as).toList ++ '>' :: ((renderAll children).toList ++
        '<' :: '/' :: (name.toList ++ '>' :: rest)) = m :: more ∧ continuesName m = false := by
      cases as with
      | nil => exact ⟨'>', _, rfl, rfl⟩
      | cons a as => exact ⟨' ', _, toList_renderAttributes_cons a as _, rfl⟩
    have htext : (Element.mk name as children).behind ++ rest = name.toList ++ m :: more := by
      rw [← hmore]
      simp [Element.behind]
    have hattributes := attributes?_render h.1.2 (n := (m :: more).length + 1)
      (by rw [← hmore]; simp only [List.length_append, List.length_cons]; omega)
      ((renderAll children).toList ++ '<' :: '/' :: (name.toList ++ '>' :: rest))
    rw [hmore, List.length_cons] at hattributes
    have hinside := content?_render h.2 h.1.1 (n := fuel) (by omega) rest
    rw [htext, element?, qname?_append h.1.1 hm]
    simp [hattributes, hinside]

/-- The elements inside an element are read back up to its end tag. -/
theorem content?_render {es : List Element} (h : areAllWritable es = true) {name : String} (hname : isLabel name = true)
    {n : Nat} (hfuel : (renderAll es).toList.length < n) (rest : List Char) :
    content? n ⟨"", name⟩ ((renderAll es).toList ++ '<' :: '/' :: (name.toList ++ '>' :: rest)) = some (es, rest) := by
  match es, n with
  | [], fuel + 1 =>
    have hdata : ∀ cs, data? .tag 0 ('<' :: cs) = some ([], '<' :: cs) := fun _ => rfl
    have hspace : ∀ cs, skipSpace ('>' :: cs) = '>' :: cs := fun _ => rfl
    have hend := qname?_append hname (m := '>') rfl rest
    simp [renderAll, content?, hdata, hend, hspace]
  | e :: es, fuel + 1 =>
    simp only [areAllWritable, Bool.and_eq_true] at h
    obtain ⟨c, cs, hcs, hc⟩ := exists_letter_behind h.1
    rw [toList_renderAll_cons] at hfuel ⊢
    simp only [List.length_cons, List.length_append] at hfuel
    have hfirst := element?_behind h.1 (n := fuel) (by omega)
      ((renderAll es).toList ++ '<' :: '/' :: (name.toList ++ '>' :: rest))
    have hothers := content?_render h.2 hname (n := fuel) (by omega) rest
    rw [List.cons_append, List.append_assoc]
    rw [hcs, List.cons_append] at hfirst ⊢
    rw [content?_of_isLetter hc, hfirst]
    simp [hothers]

end

/-- What is written of an element is read as that element. -/
theorem parse?_render {e : Element} (h : e.isWritable = true) : parse? e.render = some e := by
  obtain ⟨c, cs, hcs, hc⟩ := exists_letter_behind h
  have hread := element?_behind h (n := 2 * e.behind.length + 2) (by omega) []
  have hdata : data? .tag 0 ('<' :: e.behind) = some ([], '<' :: e.behind) := rfl
  have hbang : c ≠ '!' := fun heq => by cases heq ▸ hc
  have hquestion : c ≠ '?' := fun heq => by cases heq ▸ hc
  have hfirst : ¬((e.behind.head? = some '!' || e.behind.head? = some '?') = true) := by simp [hcs, hbang, hquestion]
  rw [List.append_nil] at hread
  rw [parse?, toList_render, List.length_cons, firstElement?, hdata]
  simp only [Option.bind_eq_bind, Option.bind_some, if_neg hfirst, hread]
  rfl

/-- The text of an element says which element it is. -/
theorem Element.render_inj {e e' : Element} (h : e.isWritable = true) (h' : e'.isWritable = true)
    (heq : e.render = e'.render) : e = e' := by
  have hread := parse?_render h
  rw [heq, parse?_render h'] at hread
  exact (Option.some.inj hread).symm

end Blockwright.Xml
