import Mathlib.Data.List.Forall2
import Blockwright.Proofs.Text.Layout
/-!
# Texts with lines put in

One text is another with further lines, the remarks, put in at the starts of lines. Writing the two
side by side keeps them so: the same text may go behind both, whole lines in front of both, and
indentation in front of every line. Code that begins with something else than a remark may also be
written in the middle of a line.
-/

namespace Blockwright.Text

/-! ## Whole lines -/

/-- Nothing, or lines that all end with a line feed. -/
def Whole (cs : List Char) : Prop := ∀ c ∈ cs.getLast?, c = '\n'

theorem whole_nil : Whole [] := by simp [Whole]

theorem whole_feed (cs : List Char) : Whole (cs ++ ['\n']) := by simp [Whole]

theorem Whole.append {u v : List Char} (hu : Whole u) (hv : Whole v) : Whole (u ++ v) := by
  cases v with
  | nil => simpa using hu
  | cons c v => simpa [Whole, List.getLast?_append] using hv

/-- What stands behind something else in whole lines is whole lines. -/
theorem Whole.right {u v : List Char} (h : Whole (u ++ v)) : Whole v := by
  cases v with
  | nil => exact whole_nil
  | cons c v => simpa [Whole, List.getLast?_append] using h

theorem Whole.eq_nil_or_feed {u : List Char} (h : Whole u) : u = [] ∨ ∃ v, u = v ++ ['\n'] := by
  rcases List.eq_nil_or_concat u with rfl | ⟨v, c, rfl⟩
  · exact .inl rfl
  · have hc : c = '\n' := h c (by simp)
    exact .inr ⟨v, by rw [hc, List.concat_eq_append]⟩

/-- Whether a text ends with a line feed. -/
def endsLine (s : String) : Bool := s.toList.getLast? == some '\n'

theorem endsLine_iff {s : String} : endsLine s = true ↔ ∃ cs, s.toList = cs ++ ['\n'] := by
  rw [endsLine, beq_iff_eq, List.getLast?_eq_some_iff]

@[simp] theorem endsLine_append {t : String} (s : String) (h : endsLine t = true) : endsLine (s ++ t) = true := by
  obtain ⟨cs, hcs⟩ := endsLine_iff.1 h
  exact endsLine_iff.2 ⟨s.toList ++ cs, by rw [String.toList_append, hcs, List.append_assoc]⟩

theorem whole_of_endsLine {s : String} (h : endsLine s = true) : Whole s.toList := by
  obtain ⟨cs, hcs⟩ := endsLine_iff.1 h
  rw [hcs]
  exact whole_feed cs

/-! ## First lines -/

/-- Whether the first line holds something besides white space. -/
def opensChars : List Char → Bool
  | [] => false
  | c :: rest => c != '\n' && (!isCodeBlank c || opensChars rest)

/-- Whether the first line of a text holds something besides white space. -/
def opens (s : String) : Bool := opensChars s.toList

theorem opensChars_append {x : List Char} (h : opensChars x = true) (y : List Char) :
    opensChars (x ++ y) = true := by
  induction x with
  | nil => cases h
  | cons c x ih =>
    simp only [opensChars, List.cons_append, Bool.and_eq_true, Bool.or_eq_true] at h ⊢
    exact ⟨h.1, h.2.imp id ih⟩

theorem opensChars_unbroken {x : List Char} (hx : '\n' ∉ x) (y : List Char) :
    opensChars (x ++ y) = (opensChars x || opensChars y) := by
  induction x with
  | nil => rfl
  | cons c x ih =>
    obtain ⟨hc, hx⟩ := not_or.1 (mt List.mem_cons.2 hx)
    have hline : (c != '\n') = true := bne_iff_ne.2 (Ne.symm hc)
    rw [List.cons_append, opensChars, opensChars, ih hx, hline, Bool.true_and, Bool.true_and, Bool.or_assoc]

theorem opensChars_behind {x y : List Char} (hx : '\n' ∉ x) (h : opensChars y = true) :
    opensChars (x ++ y) = true := by
  rw [opensChars_unbroken hx, h, Bool.or_true]

/-- What stands behind a line feed is not part of the first line. -/
theorem opensChars_feed (x y : List Char) : opensChars (x ++ '\n' :: y) = opensChars x := by
  induction x with
  | nil => rfl
  | cons c x ih => rw [List.cons_append, opensChars, opensChars, ih]

/-- A text without a line feed. -/
def Unbroken (s : String) : Prop := '\n' ∉ s.toList

instance (s : String) : Decidable (Unbroken s) := inferInstanceAs (Decidable ('\n' ∉ s.toList))

@[simp] theorem unbroken_append (s t : String) : Unbroken (s ++ t) ↔ Unbroken s ∧ Unbroken t := by
  simp [Unbroken]

@[simp] theorem opens_append_iff (s t : String) :
    opens (s ++ t) = true ↔ opens s = true ∨ Unbroken s ∧ opens t = true := by
  rw [opens, opens, opens, String.toList_append]
  refine ⟨fun h => ?_, ?_⟩
  · by_cases hs : '\n' ∈ s.toList
    · obtain ⟨x, y, hsplit, -⟩ := List.eq_append_cons_of_mem hs
      rw [hsplit, List.append_assoc, List.cons_append, opensChars_feed] at h
      rw [hsplit, opensChars_feed]
      exact .inl h
    · rw [opensChars_unbroken hs, Bool.or_eq_true] at h
      exact h.imp id fun ht => ⟨hs, ht⟩
  · rintro (hs | ⟨hs, ht⟩)
    · exact opensChars_append hs _
    · exact opensChars_behind hs ht

theorem opens_append {s : String} (h : opens s = true) (t : String) : opens (s ++ t) = true :=
  (opens_append_iff s t).2 (.inl h)

theorem ne_empty_of_opens {s : String} (h : opens s = true) : s ≠ "" := by
  rintro rfl
  exact absurd h (by decide)

/-! ## Indented lines -/

/-- `lead` in front of every line; no lines stay none. -/
def indentedLines (lead cs : List Char) : List Char := if cs = [] then [] else prefixChars lead cs

theorem toList_prefixLines {code : String} (h : code ≠ "") (lead : String) :
    (prefixLines code lead).toList = indentedLines lead.toList code.toList := by
  have hne : code.toList ≠ [] := by simpa using h
  rw [prefixLines, String.toList_ofList, indentedLines, if_neg hne]

section
variable (lead : List Char)

theorem leadAfterFeeds_append (x y : List Char) :
    leadAfterFeeds lead (x ++ y) = leadAfterFeeds lead x ++ leadAfterFeeds lead y := by
  induction x with
  | nil => rfl
  | cons c x ih =>
    rw [List.cons_append, leadAfterFeeds, leadAfterFeeds]
    split_ifs <;> simp [ih]

theorem leadAfterFeeds_line {l : List Char} (hl : '\n' ∉ l) : leadAfterFeeds lead l = l := by
  induction l with
  | nil => rfl
  | cons c l ih =>
    obtain ⟨hc, hl⟩ := not_or.1 (mt List.mem_cons.2 hl)
    rw [leadAfterFeeds, if_neg (Ne.symm hc), ih hl]

theorem prefixChars_feed (x : List Char) : prefixChars lead (x ++ ['\n']) = lead ++ leadAfterFeeds lead x ++ ['\n'] := by
  rw [prefixChars, if_pos (by simp), List.dropLast_concat]

theorem prefixChars_behind (x : List Char) {y : List Char} (hy : y ≠ []) :
    prefixChars lead (x ++ ['\n'] ++ y) = prefixChars lead (x ++ ['\n']) ++ prefixChars lead y := by
  have hfeed : leadAfterFeeds lead ['\n'] = '\n' :: lead := by simp [leadAfterFeeds]
  rw [prefixChars_feed]
  rcases List.eq_nil_or_concat y with rfl | ⟨z, c, rfl⟩
  · exact absurd rfl hy
  · rw [List.concat_eq_append]
    by_cases hc : c = '\n'
    · rw [hc, ← List.append_assoc, prefixChars_feed, prefixChars_feed, leadAfterFeeds_append, leadAfterFeeds_append, hfeed]
      simp
    · have hlast : ∀ w : List Char, (w ++ [c]).getLast? ≠ some '\n' := fun w h => hc (by simpa using h)
      rw [← List.append_assoc, prefixChars, if_neg (hlast _), prefixChars, if_neg (hlast _), List.append_assoc _ z,
        leadAfterFeeds_append, leadAfterFeeds_append, hfeed]
      simp

theorem indentedLines_append {u : List Char} (hu : Whole u) (a : List Char) :
    indentedLines lead (u ++ a) = indentedLines lead u ++ indentedLines lead a := by
  rcases hu.eq_nil_or_feed with rfl | ⟨x, rfl⟩
  · rfl
  · by_cases ha : a = []
    · simp [ha, indentedLines]
    · rw [indentedLines, if_neg (by simp), indentedLines, if_neg (by simp), indentedLines, if_neg ha,
        prefixChars_behind lead x ha]

theorem whole_indentedLines {u : List Char} (hu : Whole u) : Whole (indentedLines lead u) := by
  rcases hu.eq_nil_or_feed with rfl | ⟨x, rfl⟩
  · exact whole_nil
  · rw [indentedLines, if_neg (by simp), prefixChars_feed]
    exact whole_feed _

theorem indentedLines_line {l : List Char} (hl : '\n' ∉ l) (a : List Char) :
    indentedLines lead (l ++ '\n' :: a) = lead ++ l ++ '\n' :: indentedLines lead a := by
  have hline : indentedLines lead (l ++ ['\n']) = lead ++ l ++ ['\n'] := by
    rw [indentedLines, if_neg (by simp), prefixChars_feed, leadAfterFeeds_line lead hl]
  rw [List.append_cons, indentedLines_append lead (whole_feed l), hline]
  simp

theorem opensChars_indentedLines (hlead : '\n' ∉ lead) {b : List Char} (h : opensChars b = true) :
    opensChars (indentedLines lead b) = true := by
  by_cases hfeed : '\n' ∈ b
  · obtain ⟨l, rest, rfl, hl⟩ := List.eq_append_cons_of_mem hfeed
    rw [opensChars_feed] at h
    rw [indentedLines_line lead hl, opensChars_feed]
    exact opensChars_behind hlead h
  · have hlast : b.getLast? ≠ some '\n' := fun hlast => hfeed (List.mem_of_getLast? hlast)
    have hne : b ≠ [] := by rintro rfl; cases h
    rw [indentedLines, if_neg hne, prefixChars, if_neg hlast, leadAfterFeeds_line lead hfeed]
    exact opensChars_behind hlead h

end

theorem endsLine_prefixLines {s : String} (h : endsLine s = true) (lead : String) :
    endsLine (prefixLines s lead) = true := by
  obtain ⟨cs, hcs⟩ := endsLine_iff.1 h
  exact endsLine_iff.2 ⟨_, by rw [prefixLines, String.toList_ofList, hcs, prefixChars_feed]⟩

/-- A text ends with its last line feed also when something else in it is replaced. -/
theorem replaceAfter_feed {find : List Char} (hne : find ≠ []) (hfind : '\n' ∉ find) (put : List Char)
    {cs : List Char} {skip : Nat} (hskip : skip ≤ cs.length) :
    ∃ ds, replaceAfter find put skip (cs ++ ['\n']) = ds ++ ['\n'] := by
  induction cs generalizing skip with
  | nil =>
    obtain rfl : skip = 0 := by simpa using hskip
    refine ⟨[], ?_⟩
    rw [List.nil_append, replaceAfter, if_neg, replaceAfter]
    intro hprefix
    obtain ⟨c, find, rfl⟩ := List.exists_cons_of_ne_nil hne
    obtain ⟨rfl, -⟩ := List.cons_prefix_cons.1 (List.isPrefixOf_iff_prefix.1 hprefix)
    exact hfind List.mem_cons_self
  | cons c cs ih =>
    cases skip with
    | succ skip => exact ih (Nat.le_of_succ_le_succ hskip)
    | zero =>
      rw [List.cons_append, replaceAfter]
      split_ifs with hprefix
      · have hshort : find.length - 1 ≤ cs.length := by
          rw [List.isPrefixOf_iff_prefix, ← List.cons_append] at hprefix
          have hlen := hprefix.length_le
          by_contra hlong
          -- an occurrence that takes the line feed too would hold it
          have hwhole : find = c :: cs ++ ['\n'] := hprefix.eq_of_length (by simp at hlen ⊢; omega)
          exact hfind (hwhole ▸ by simp)
        obtain ⟨ds, hds⟩ := ih hshort
        exact ⟨put ++ ds, by rw [hds, List.append_assoc]⟩
      · obtain ⟨ds, hds⟩ := ih (Nat.zero_le _)
        exact ⟨c :: ds, by rw [hds, List.cons_append]⟩

theorem endsLine_replaceAll {find s : String} (hne : find ≠ "") (hfind : Unbroken find) (put : String)
    (h : endsLine s = true) : endsLine (replaceAll find put s) = true := by
  obtain ⟨cs, hcs⟩ := endsLine_iff.1 h
  obtain ⟨ds, hds⟩ := replaceAfter_feed (by simpa using hne) hfind put.toList (Nat.zero_le cs.length)
  exact endsLine_iff.2 ⟨ds, by rw [replaceAll, String.toList_ofList, hcs, hds]⟩

/-! ## Annotated texts -/

/-- The first text is the second with remarks put in, each on a line of its own in front of a line
that is not blank. -/
inductive Annotated (remark : List Char → Prop) : List Char → List Char → Prop
  | same (cs : List Char) : Annotated remark cs cs
  | behind {u a b : List Char} : Whole u → Annotated remark a b → Annotated remark (u ++ a) (u ++ b)
  | remark {l a b : List Char} : '\n' ∉ l → remark l → opensChars b = true → Annotated remark a b →
      Annotated remark (l ++ '\n' :: a) b

/-- Wherever both texts are written behind an annotated text, the outcome is annotated. -/
def Inline (remark : List Char → Prop) (a b : String) : Prop :=
  ∀ u v, Annotated remark u v → Annotated remark (u ++ a.toList) (v ++ b.toList)

section
variable {remark : List Char → Prop} {a b c d : List Char} {s t s' t' : String}

theorem Annotated.eq (h : Annotated remark a b) (hnone : ∀ l, ¬ remark l) : a = b := by
  induction h with
  | same cs => rfl
  | behind _ _ ih => rw [ih]
  | remark _ hl => exact absurd hl (hnone _)

/-- The same text behind both. -/
theorem Annotated.before (h : Annotated remark a b) (t : List Char) : Annotated remark (a ++ t) (b ++ t) := by
  induction h with
  | same cs => exact .same _
  | behind hu _ ih =>
    rw [List.append_assoc, List.append_assoc]
    exact .behind hu ih
  | remark hl hremark hopens _ ih =>
    rw [List.append_assoc]
    exact .remark hl hremark (opensChars_append hopens t) ih

/-- Annotated texts behind whole lines. -/
theorem Annotated.append (h : Annotated remark a b) (ha : Whole a) (hcd : Annotated remark c d) :
    Annotated remark (a ++ c) (b ++ d) := by
  induction h with
  | same cs => exact .behind ha hcd
  | behind hu _ ih =>
    rw [List.append_assoc, List.append_assoc]
    exact .behind hu (ih ha.right)
  | @remark l a b hl hremark hopens _ ih =>
    have hright : Whole a := Whole.right (u := l ++ ['\n']) (by simpa using ha)
    rw [List.append_assoc]
    exact .remark hl hremark (opensChars_append hopens d) (ih hright)

theorem Inline.same (s : String) : Inline remark s s := fun _ _ h => h.before _

theorem Inline.append (h : Inline remark s t) (h' : Inline remark s' t') : Inline remark (s ++ s') (t ++ t') := by
  intro u v huv
  rw [String.toList_append, String.toList_append, ← List.append_assoc, ← List.append_assoc]
  exact h' _ _ (h _ _ huv)

theorem Inline.annotated (h : Inline remark s t) : Annotated remark s.toList t.toList := h [] [] (.same [])

/-- Annotated texts on lines of their own. -/
theorem Inline.lines (h : Inline remark s t) (hs : endsLine s = true)
    (h' : Annotated remark s'.toList t'.toList) : Inline remark (s ++ s') (t ++ t') := by
  intro u v huv
  obtain ⟨x, hx⟩ := endsLine_iff.1 hs
  have hwhole : Whole (u ++ s.toList) := by
    rw [hx, ← List.append_assoc]
    exact whole_feed _
  rw [String.toList_append, String.toList_append, ← List.append_assoc, ← List.append_assoc]
  exact (h u v huv).append hwhole h'

theorem Inline.joinWith (sep : String) {ss ts : List String} (h : List.Forall₂ (Inline remark) ss ts) :
    Inline remark (joinWith sep ss) (joinWith sep ts) := by
  induction h with
  | nil => exact .same _
  | cons hst htail ih =>
    cases htail with
    | nil => exact hst
    | cons _ _ => exact (hst.append (.same sep)).append ih

/-- Texts with a separator that ends its line. -/
theorem Annotated.joinWith {sep : String} (hsep : endsLine sep = true) {ss ts : List String}
    (h : List.Forall₂ (fun s t => Annotated remark s.toList t.toList) ss ts) :
    Annotated remark (joinWith sep ss).toList (joinWith sep ts).toList := by
  induction h with
  | nil => exact .same _
  | @cons s t _ _ hst htail ih =>
    cases htail with
    | nil => exact hst
    | cons _ _ =>
      have hwhole : Whole (s.toList ++ sep.toList) := by
        rw [← String.toList_append]
        exact whole_of_endsLine (endsLine_append s hsep)
      rw [Text.joinWith, Text.joinWith]
      simp only [String.toList_append]
      exact (hst.before sep.toList).append hwhole ih

/-- The same indentation in front of every line. -/
theorem Annotated.indented {lead : List Char} (hlead : ∀ l, remark l → remark (lead ++ l) ∧ '\n' ∉ lead)
    (h : Annotated remark a b) : Annotated remark (indentedLines lead a) (indentedLines lead b) := by
  induction h with
  | same cs => exact .same _
  | behind hu _ ih =>
    rw [indentedLines_append lead hu, indentedLines_append lead hu]
    exact .behind (whole_indentedLines lead hu) ih
  | remark hl hremark hopens _ ih =>
    obtain ⟨hagain, hfree⟩ := hlead _ hremark
    rw [indentedLines_line lead hl]
    refine .remark ?_ hagain (opensChars_indentedLines lead hfree hopens) ih
    rw [List.mem_append]
    exact not_or.2 ⟨hfree, hl⟩

/-- Remarks alone in front of a line that is not blank. -/
theorem Annotated.remarks {ls : List (List Char)} (hls : ∀ l ∈ ls, '\n' ∉ l ∧ remark l) (hb : opensChars b = true)
    (h : Annotated remark a b) : Annotated remark (ls.flatMap (· ++ ['\n']) ++ a) b := by
  induction ls with
  | nil => exact h
  | cons l ls ih =>
    obtain ⟨hl, hrest⟩ := List.forall_mem_cons.1 hls
    rw [List.flatMap_cons, List.append_assoc, List.append_assoc]
    exact .remark hl.1 hl.2 hb (ih hrest)

end
end Blockwright.Text
