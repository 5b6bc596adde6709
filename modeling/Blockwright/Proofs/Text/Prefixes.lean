import Blockwright.Proofs.Number.Wholes
import Blockwright.Proofs.Text.ScriptLines
/-!
# Lines with a prefix

A text is its lines and perhaps a line feed at the end, and putting a prefix in front of its lines
changes nothing else. So the lines of texts that are put together behind a line feed are the lines of
both, two prefixes are as good as one, and a prefix can be taken away again. What stands in a text from
the start of a line on stands there under a prefix as well.
-/

namespace Blockwright.Text

variable {a b lead part text : String}

/-! ## The lines of a text -/

/-- A text without the line feed at its end. -/
def bodyChars (text : String) : List Char := if endsLine text then text.toList.dropLast else text.toList

/-- The line feed at the end of a text, if there is one. -/
def lastFeed (text : String) : List Char := if endsLine text then ['\n'] else []

/-- The lines of a text. A line feed at the very end starts no line, and the empty text is one empty line. -/
def lines (text : String) : List String := ((bodyChars text).splitOn '\n').map String.ofList

/-- The text without `lead` at the start of each of its lines; `none` if a line does not begin with it. -/
def unprefixLines? (text lead : String) : Option String := do
  let rest ← (lines text).mapM fun line => dropStart? lead.toList line.toList
  return String.ofList (['\n'].intercalate rest ++ lastFeed text)

theorem bodyChars_append_lastFeed (text : String) : bodyChars text ++ lastFeed text = text.toList := by
  unfold bodyChars lastFeed
  split_ifs with h
  · obtain ⟨cs, hcs⟩ := endsLine_iff.1 h
    rw [hcs, List.dropLast_concat]
  · exact List.append_nil _

theorem bodyChars_eq {cs : List Char} (h : text.toList = cs ++ lastFeed text) : bodyChars text = cs := by
  rw [← bodyChars_append_lastFeed text] at h
  exact List.append_cancel_right h

theorem lastFeed_congr (h : endsLine a = endsLine b) : lastFeed a = lastFeed b := by
  rw [lastFeed, lastFeed, h]

theorem endsLine_append_eq (a : String) (hb : b ≠ "") : endsLine (a ++ b) = endsLine b := by
  have hne : b.toList ≠ [] := by simpa using hb
  rw [endsLine, endsLine, String.toList_append, List.getLast?_append_of_ne_nil _ hne]

/-- Behind a line feed new lines begin. -/
theorem lines_append (ha : endsLine a = true) (hb : b ≠ "") : lines (a ++ b) = lines a ++ lines b := by
  obtain ⟨cs, hcs⟩ := endsLine_iff.1 ha
  have hfeed : lastFeed (a ++ b) = lastFeed b := lastFeed_congr (endsLine_append_eq a hb)
  have hboth : bodyChars (a ++ b) = cs ++ '\n' :: bodyChars b := bodyChars_eq <| by
    rw [String.toList_append, hcs, hfeed, ← bodyChars_append_lastFeed b]
    simp
  have hleft : bodyChars a = cs := bodyChars_eq <| by rw [hcs, lastFeed, if_pos ha]
  rw [lines, lines, lines, hboth, hleft, List.splitOn, List.splitOnP_append_cons _ _ (by simp), List.map_append]
  rfl

/-! ## A prefix in front of every line -/

theorem toList_prefixLines_eq (text lead : String) :
    (prefixLines text lead).toList = lead.toList ++ leadAfterFeeds lead.toList (bodyChars text) ++ lastFeed text := by
  rw [prefixLines, String.toList_ofList, bodyChars, lastFeed]
  split_ifs with h
  · obtain ⟨cs, hcs⟩ := endsLine_iff.1 h
    rw [hcs, prefixChars_feed, List.dropLast_concat]
  · rw [prefixChars, if_neg (by simpa [endsLine] using h), List.append_nil]

/-- A prefix without a line feed leaves the end of a text as it is. -/
theorem endsLine_prefixLines_eq (hlead : Unbroken lead) (text : String) :
    endsLine (prefixLines text lead) = endsLine text := by
  cases h : endsLine text with
  | true => exact endsLine_prefixLines h lead
  | false =>
    have hchars := toList_prefixLines_eq text lead
    rw [bodyChars, lastFeed, if_neg (by simp [h]), if_neg (by simp [h]), List.append_nil] at hchars
    rw [endsLine, hchars]
    rcases List.eq_nil_or_concat text.toList with hnil | ⟨cs, c, hcs⟩
    · rw [hnil, leadAfterFeeds, List.append_nil]
      exact beq_false_of_ne fun hlast => hlead (List.mem_of_getLast? hlast)
    · have hc : c ≠ '\n' := by
        rintro rfl
        rw [endsLine, hcs] at h
        simp at h
      have hkept : leadAfterFeeds lead.toList [c] = [c] := leadAfterFeeds_line _ (by simpa using hc.symm)
      rw [hcs, List.concat_eq_append, leadAfterFeeds_append, hkept, ← List.append_assoc, List.getLast?_concat]
      exact beq_false_of_ne fun hfeed => hc (Option.some.inj hfeed)

theorem bodyChars_prefixLines (hlead : Unbroken lead) (text : String) :
    bodyChars (prefixLines text lead) = lead.toList ++ leadAfterFeeds lead.toList (bodyChars text) :=
  bodyChars_eq <| by rw [toList_prefixLines_eq, lastFeed_congr (endsLine_prefixLines_eq hlead text)]

/-- A prefix goes through a text that goes on behind a line feed. -/
theorem prefixLines_append (ha : endsLine a = true) (hb : b ≠ "") (lead : String) :
    prefixLines (a ++ b) lead = prefixLines a lead ++ prefixLines b lead := by
  obtain ⟨cs, hcs⟩ := endsLine_iff.1 ha
  apply String.toList_injective
  rw [String.toList_append, prefixLines, prefixLines, prefixLines, String.toList_ofList, String.toList_ofList,
    String.toList_ofList, String.toList_append, hcs, prefixChars_behind lead.toList cs (by simpa using hb)]

/-- A text that does not end its line shares that line with what is put behind it, and the prefix of the
latter stands in the middle of it. -/
theorem prefixLines_append_of_not_endsLine (hlead : Unbroken lead) (ha : endsLine a = false) (hb : b ≠ "") :
    prefixLines (a ++ (lead ++ b)) lead = prefixLines a lead ++ prefixLines b lead := by
  have hne : lead ++ b ≠ "" := fun hempty => hb (String.append_eq_empty_iff.1 hempty).2
  have hfeed : lastFeed (a ++ (lead ++ b)) = lastFeed b :=
    lastFeed_congr ((endsLine_append_eq a hne).trans (endsLine_append_eq lead hb))
  have hbody : bodyChars (a ++ (lead ++ b)) = a.toList ++ (lead.toList ++ bodyChars b) := bodyChars_eq <| by
    rw [String.toList_append, String.toList_append, hfeed, ← bodyChars_append_lastFeed b]
    simp only [List.append_assoc]
  have hleft : (prefixLines a lead).toList = lead.toList ++ leadAfterFeeds lead.toList a.toList := by
    rw [toList_prefixLines_eq, bodyChars, lastFeed, if_neg (by simp [ha]), if_neg (by simp [ha]), List.append_nil]
  apply String.toList_injective
  rw [String.toList_append, hleft, toList_prefixLines_eq, toList_prefixLines_eq, hbody, hfeed, leadAfterFeeds_append,
    leadAfterFeeds_append, leadAfterFeeds_line lead.toList hlead]
  simp only [List.append_assoc]

theorem leadAfterFeeds_leadAfterFeeds {inner : List Char} (hinner : '\n' ∉ inner) (outer cs : List Char) :
    leadAfterFeeds outer (leadAfterFeeds inner cs) = leadAfterFeeds (outer ++ inner) cs := by
  induction cs with
  | nil => rfl
  | cons c cs ih =>
    rw [leadAfterFeeds, leadAfterFeeds]
    split_ifs with hc
    · rw [leadAfterFeeds, if_pos rfl, leadAfterFeeds_append, leadAfterFeeds_line outer hinner, ih, List.append_assoc]
    · rw [leadAfterFeeds, if_neg hc, ih]

/-- Two prefixes are one, of which the outer one comes first. -/
theorem prefixLines_prefixLines {inner : String} (hinner : Unbroken inner) (text outer : String) :
    prefixLines (prefixLines text inner) outer = prefixLines text (outer ++ inner) := by
  apply String.toList_injective
  rw [toList_prefixLines_eq, toList_prefixLines_eq, bodyChars_prefixLines hinner,
    lastFeed_congr (endsLine_prefixLines_eq hinner text), leadAfterFeeds_append,
    leadAfterFeeds_line outer.toList hinner, leadAfterFeeds_leadAfterFeeds hinner, String.toList_append]
  simp

/-- The lines of a text with a prefix are its lines, each behind the prefix. -/
theorem lines_prefixLines (hlead : Unbroken lead) (text : String) :
    lines (prefixLines text lead) = (lines text).map (lead ++ ·) := by
  have hrows := splitOnP_leadAfterFeeds (p := (· == '\n')) rfl
    (fun c hc => by simpa using fun h : c = '\n' => hlead (h ▸ hc)) [] (bodyChars text) (by simp)
  have hone : ∀ row ∈ (bodyChars text).splitOn '\n', row.splitOnP (· == '\n') = [row] := fun row hrow =>
    List.splitOnP_eq_singleton fun c hc => (plain_of_mem_splitOnP hrow c hc).1
  have hlines : (lead.toList ++ leadAfterFeeds lead.toList (bodyChars text)).splitOn '\n' =
      ((bodyChars text).splitOn '\n').map (lead.toList ++ ·) := by
    rw [List.splitOn]
    refine hrows.trans ?_
    rw [List.map_eq_flatMap]
    exact List.flatMap_congr fun row hrow => by rw [hone row hrow]; rfl
  rw [lines, bodyChars_prefixLines hlead, hlines, lines, List.map_map, List.map_map]
  refine List.map_congr_left fun row _ => ?_
  rw [Function.comp_apply, Function.comp_apply, String.ofList_append, String.ofList_toList]

theorem unbroken_repeated (hlead : Unbroken lead) (n : Nat) : Unbroken (repeated n lead) := by
  induction n with
  | zero => simp [Unbroken, repeated]
  | succ n ih => simpa [Unbroken, repeated, or_imp, forall_and] using ⟨hlead, ih⟩

theorem count_leadAfterFeeds {lead : List Char} (hlead : '\n' ∉ lead) (cs : List Char) :
    (leadAfterFeeds lead cs).count '\n' = cs.count '\n' := by
  induction cs with
  | nil => rfl
  | cons c cs ih =>
    rw [leadAfterFeeds]
    split_ifs with hc
    · rw [hc, List.count_cons_self, List.count_append, List.count_eq_zero.2 hlead, ih, Nat.zero_add,
        List.count_cons_self]
    · rw [List.count_cons_of_ne hc, ih, List.count_cons_of_ne hc]

/-- A prefix without a line feed adds no line feed. -/
theorem count_prefixLines (hlead : Unbroken lead) (text : String) :
    (prefixLines text lead).toList.count '\n' = text.toList.count '\n' := by
  rw [toList_prefixLines_eq, ← bodyChars_append_lastFeed text, List.count_append, List.count_append, List.count_append,
    count_leadAfterFeeds hlead, List.count_eq_zero.2 hlead, Nat.zero_add]

/-- A prefix can be taken away again, line by line. -/
theorem unprefixLines?_prefixLines (hlead : Unbroken lead) (text : String) :
    unprefixLines? (prefixLines text lead) lead = some text := by
  have hdropped : ∀ rows : List (List Char), ((rows.map String.ofList).map (lead ++ ·)).mapM
      (fun line => dropStart? lead.toList line.toList) = some rows := by
    intro rows
    induction rows with
    | nil => rfl
    | cons row rows ih =>
      rw [List.map_cons, List.map_cons, List.mapM_cons, ih, String.toList_append, String.toList_ofList,
        dropStart?_append]
      rfl
  rw [unprefixLines?, lines_prefixLines hlead, lines, hdropped, lastFeed_congr (endsLine_prefixLines_eq hlead text)]
  refine congrArg some (String.toList_injective ?_)
  rw [String.toList_ofList, List.intercalate_splitOn, bodyChars_append_lastFeed]

example : prefixLines "a\n\nb\n" "> " = "> a\n> \n> b\n" ∧ unprefixLines? "> a\n> \n> b\n" "> " = some "a\n\nb\n" := by
  decide +kernel

/-! ## Parts of a text from the start of a line on -/

/-- The part stands in the text from the start of a line on. -/
def Stands (part text : String) : Prop := ∃ before after, text = before ++ part ++ after ∧ Whole before.toList

/-- The part stands in the text from the start of a line on, behind at least one other line. -/
def StandsBelow (part text : String) : Prop := ∃ before after, text = before ++ part ++ after ∧ endsLine before = true

theorem ne_empty_of_endsLine (h : endsLine text = true) : text ≠ "" := by
  rintro rfl
  exact absurd h (by decide)

/-- Before the start of a line stands nothing, or a line. -/
theorem eq_empty_or_endsLine (h : Whole text.toList) : text = "" ∨ endsLine text = true :=
  h.eq_nil_or_feed.imp (fun hnil => String.toList_injective hnil) fun hfeed => endsLine_iff.2 hfeed

theorem stands_self (part after : String) : Stands part (part ++ after) :=
  ⟨"", after, by rw [String.empty_append], whole_nil⟩

/-- What stands in a text stands at its start or behind a line. -/
theorem Stands.cases (h : Stands part text) : (∃ after, text = part ++ after) ∨ StandsBelow part text := by
  obtain ⟨before, after, rfl, hbefore⟩ := h
  rcases eq_empty_or_endsLine hbefore with rfl | hends
  · exact .inl ⟨after, by rw [String.empty_append]⟩
  · exact .inr ⟨before, after, rfl, hends⟩

theorem StandsBelow.stands (h : StandsBelow part text) : Stands part text := by
  obtain ⟨before, after, htext, hbefore⟩ := h
  exact ⟨before, after, htext, whole_of_endsLine hbefore⟩

theorem StandsBelow.behind (h : StandsBelow part text) (front : String) : StandsBelow part (front ++ text) := by
  obtain ⟨before, after, rfl, hbefore⟩ := h
  exact ⟨front ++ before, after, by simp only [String.append_assoc], endsLine_append front hbefore⟩

theorem Stands.behind {front : String} (h : Stands part text) (hfront : endsLine front = true) :
    StandsBelow part (front ++ text) := by
  rcases h.cases with ⟨after, rfl⟩ | hbelow
  · exact ⟨front, after, (String.append_assoc ..).symm, hfront⟩
  · exact hbelow.behind front

theorem StandsBelow.append (h : StandsBelow part text) (rest : String) : StandsBelow part (text ++ rest) := by
  obtain ⟨before, after, rfl, hbefore⟩ := h
  exact ⟨before, after ++ rest, by simp only [String.append_assoc], hbefore⟩

theorem Stands.append (h : Stands part text) (rest : String) : Stands part (text ++ rest) := by
  obtain ⟨before, after, rfl, hbefore⟩ := h
  exact ⟨before, after ++ rest, by simp only [String.append_assoc], hbefore⟩

theorem exists_prefixLines_append (hpart : endsLine part = true) (after lead : String) :
    ∃ after', prefixLines (part ++ after) lead = prefixLines part lead ++ after' := by
  by_cases hafter : after = ""
  · exact ⟨"", by rw [hafter, String.append_empty, String.append_empty]⟩
  · exact ⟨prefixLines after lead, prefixLines_append hpart hafter lead⟩

/-- Under a prefix, lines stand where they stood. -/
theorem StandsBelow.prefixLines (h : StandsBelow part text) (hpart : endsLine part = true) (lead : String) :
    StandsBelow (prefixLines part lead) (prefixLines text lead) := by
  obtain ⟨before, after, rfl, hbefore⟩ := h
  obtain ⟨after', hafter⟩ := exists_prefixLines_append hpart after lead
  have hne : part ++ after ≠ "" := fun hempty => ne_empty_of_endsLine hpart (String.append_eq_empty_iff.1 hempty).1
  refine ⟨Text.prefixLines before lead, after', ?_, endsLine_prefixLines hbefore lead⟩
  rw [String.append_assoc, prefixLines_append hbefore hne, hafter, String.append_assoc]

/-- What is joined stands in the outcome. -/
theorem exists_joinWith (sep : String) {text : String} {texts : List String} (h : text ∈ texts) :
    ∃ before after, joinWith sep texts = before ++ text ++ after := by
  induction texts with
  | nil => simp at h
  | cons first rest ih =>
    cases rest with
    | nil =>
      obtain rfl := List.mem_singleton.1 h
      exact ⟨"", "", by rw [String.empty_append, String.append_empty]; rfl⟩
    | cons second rest =>
      rcases List.mem_cons.1 h with rfl | h
      · exact ⟨"", sep ++ joinWith sep (second :: rest), by rw [String.empty_append, joinWith, String.append_assoc]⟩
      · obtain ⟨before, after, hjoin⟩ := ih h
        exact ⟨first ++ sep ++ before, after, by rw [joinWith, hjoin]; simp only [String.append_assoc]⟩

/-- Lines that stand in a text are among its lines, one behind the other. -/
theorem Stands.lines_infix (h : Stands part text) (hpart : endsLine part = true) : lines part <:+: lines text := by
  have hbehind : ∀ after, lines part <+: lines (part ++ after) := by
    intro after
    by_cases hafter : after = ""
    · exact ⟨[], by rw [hafter, String.append_empty, List.append_nil]⟩
    · rw [lines_append hpart hafter]
      exact List.prefix_append _ _
  rcases h.cases with ⟨after, rfl⟩ | ⟨before, after, rfl, hbefore⟩
  · exact (hbehind after).isInfix
  · have hne : part ++ after ≠ "" := fun hempty => ne_empty_of_endsLine hpart (String.append_eq_empty_iff.1 hempty).1
    rw [String.append_assoc, lines_append hbefore hne]
    exact (hbehind after).isInfix.trans (List.suffix_append _ _).isInfix

end Blockwright.Text
