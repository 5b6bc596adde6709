import Mathlib.Data.List.TakeWhile
import Blockwright.Proofs.Text.Annotated
/-!
# Comment lines

A line of a program that begins with two slashes, behind spaces and tabs, is a comment. Two texts of
which one is the other with comments put in become equal once both are tidied and their comment
lines are dropped.
-/

namespace Blockwright.Text

/-- Spaces and tabs. -/
def isPad (c : Char) : Bool := c == ' ' || c == '\t'

/-- Whether the first characters of a line behind spaces and tabs are two slashes. -/
def isCommentLine (line : List Char) : Bool := ['/', '/'].isPrefixOf (line.dropWhile isPad)

/-- Drops the comment lines; `line` is what is already read of the current one. What stands behind
the last line feed is not a line and stays. -/
def dropCommentsFrom (line : List Char) : List Char → List Char
  | [] => line
  | c :: rest =>
    if c = '\n' then (if isCommentLine line then [] else line ++ ['\n']) ++ dropCommentsFrom [] rest
    else dropCommentsFrom (line ++ [c]) rest

/-- A text without the lines that end with a line feed and are comments. -/
def dropComments (s : String) : String := String.ofList (dropCommentsFrom [] s.toList)

/-! ## Dropping comments -/

theorem dropCommentsFrom_line {l : List Char} (hl : '\n' ∉ l) (line rest : List Char) :
    dropCommentsFrom line (l ++ '\n' :: rest) =
      (if isCommentLine (line ++ l) then [] else line ++ l ++ ['\n']) ++ dropCommentsFrom [] rest := by
  induction l generalizing line with
  | nil => simp [dropCommentsFrom]
  | cons c l ih =>
    obtain ⟨hc, hl⟩ := not_or.1 (mt List.mem_cons.2 hl)
    rw [List.cons_append, dropCommentsFrom, if_neg (Ne.symm hc), ih hl, List.append_assoc, List.singleton_append]

theorem dropCommentsFrom_behind (x line a : List Char) :
    dropCommentsFrom line (x ++ ['\n'] ++ a) = dropCommentsFrom line (x ++ ['\n']) ++ dropCommentsFrom [] a := by
  induction x generalizing line with
  | nil => simp [dropCommentsFrom]
  | cons c x ih =>
    simp only [List.cons_append, dropCommentsFrom]
    split_ifs
    · exact ih []
    · rw [ih []]
      simp
    · exact ih _

theorem dropCommentsFrom_append {u : List Char} (hu : Whole u) (a : List Char) :
    dropCommentsFrom [] (u ++ a) = dropCommentsFrom [] u ++ dropCommentsFrom [] a := by
  rcases hu.eq_nil_or_feed with rfl | ⟨x, rfl⟩
  · rfl
  · exact dropCommentsFrom_behind x [] a

theorem dropCommentsFrom_comment {l : List Char} (hl : '\n' ∉ l) (hcomment : isCommentLine l = true) (a : List Char) :
    dropCommentsFrom [] (l ++ '\n' :: a) = dropCommentsFrom [] a := by
  rw [dropCommentsFrom_line hl, List.nil_append, if_pos hcomment, List.nil_append]

/-- Comments may be indented. -/
theorem isCommentLine_indented {lead l : List Char} (hlead : ∀ c ∈ lead, isPad c = true) (h : isCommentLine l = true) :
    isCommentLine (lead ++ l) = true := by
  rw [isCommentLine, List.dropWhile_append, List.dropWhile_eq_nil_iff.2 hlead, List.isEmpty_nil, if_pos rfl]
  exact h

/-! ## Ink -/

/-- Something besides white space. -/
def Inked (cs : List Char) : Prop := ∃ c ∈ cs, isCodeBlank c = false

theorem Inked.append {y : List Char} (h : Inked y) (x : List Char) : Inked (x ++ y) := by
  obtain ⟨c, hc, hink⟩ := h
  exact ⟨c, List.mem_append_right x hc, hink⟩

theorem inked_of_opensChars {cs : List Char} (h : opensChars cs = true) : Inked cs := by
  induction cs with
  | nil => cases h
  | cons c cs ih =>
    simp only [opensChars, Bool.and_eq_true, Bool.or_eq_true, Bool.not_eq_true'] at h
    rcases h.2 with hc | hcs
    · exact ⟨c, List.mem_cons_self, hc⟩
    · exact (ih hcs).append [c]

/-- A comment line is not blank. -/
theorem opensChars_comment {l : List Char} (hl : '\n' ∉ l) (h : isCommentLine l = true) : opensChars l = true := by
  induction l with
  | nil => cases h
  | cons c l ih =>
    obtain ⟨hc, hl⟩ := not_or.1 (mt List.mem_cons.2 hl)
    rw [opensChars, bne_iff_ne.2 (Ne.symm hc), Bool.true_and, Bool.or_eq_true]
    cases hpad : isPad c with
    | true =>
      rw [isCommentLine, List.dropWhile_cons, if_pos hpad] at h
      exact .inr (ih hl h)
    | false =>
      rw [isCommentLine, List.dropWhile_cons, hpad] at h
      have hslash : '/' = c := by
        simp only [Bool.false_eq_true, if_false, List.isPrefixOf, Bool.and_eq_true, beq_iff_eq] at h
        exact h.1
      subst hslash
      exact .inl rfl

section
variable {remark : List Char → Prop} {a b : List Char}

/-- Annotated texts are equal or both hold more than white space. -/
theorem Annotated.eq_or_inked (h : Annotated remark a b) : a = b ∨ (Inked a ∧ Inked b) := by
  induction h with
  | same cs => exact .inl rfl
  | behind _ _ ih =>
    rcases ih with rfl | ⟨ha, hb⟩
    · exact .inl rfl
    · exact .inr ⟨ha.append _, hb.append _⟩
  | @remark l a b _ _ hopens _ ih =>
    have hb := inked_of_opensChars hopens
    have ha : Inked a := by
      rcases ih with rfl | ⟨ha, -⟩
      · exact hb
      · exact ha
    refine .inr ⟨?_, hb⟩
    rw [List.append_cons]
    exact ha.append _

end

/-! ## White space at the end -/

theorem dropTrailingBlank_append (x : List Char) {t : List Char} (ht : Inked t) :
    dropTrailingBlank (x ++ t) = x ++ dropTrailingBlank t := by
  obtain ⟨c, hc, hink⟩ := ht
  have hshort : (t.reverse.takeWhile isCodeBlank).length ≠ t.reverse.length := by
    intro hlen
    have hall : t.reverse.takeWhile isCodeBlank = t.reverse :=
      (List.takeWhile_sublist _).eq_of_length hlen
    have hblank := List.takeWhile_eq_self_iff.1 hall c (List.mem_reverse.2 hc)
    rw [hink] at hblank
    cases hblank
  have hblank : (x ++ t).reverse.takeWhile isCodeBlank = t.reverse.takeWhile isCodeBlank := by
    rw [List.reverse_append, List.takeWhile_append, if_neg hshort]
  have hle : (t.reverse.takeWhile isCodeBlank).length ≤ t.length := by
    simpa using (List.takeWhile_sublist isCodeBlank (l := t.reverse)).length_le
  have hbody : (x ++ t).take ((x ++ t).length - (t.reverse.takeWhile isCodeBlank).length)
      = x ++ t.take (t.length - (t.reverse.takeWhile isCodeBlank).length) := by
    rw [List.length_append, Nat.add_sub_assoc hle, List.take_length_add_append]
  unfold dropTrailingBlank
  simp only [hblank, List.length_reverse, hbody]
  split_ifs <;> simp

theorem opensChars_dropTrailingBlank {b : List Char} (h : opensChars b = true) :
    opensChars (dropTrailingBlank b) = true := by
  rcases Scan.dropTrailingBlank_cases b with hsame | ⟨front, more, hb, -, hdropped⟩
  · rwa [hsame]
  · rw [hb, opensChars_feed] at h
    rw [hdropped]
    exact opensChars_append h _

theorem Annotated.dropTrailingBlank {remark : List Char → Prop} {a b : List Char} (h : Annotated remark a b) :
    Annotated remark (dropTrailingBlank a) (dropTrailingBlank b) := by
  induction h with
  | same cs => exact .same _
  | behind hu hab ih =>
    rcases hab.eq_or_inked with rfl | ⟨ha, hb⟩
    · exact .same _
    · rw [dropTrailingBlank_append _ ha, dropTrailingBlank_append _ hb]
      exact .behind hu ih
  | @remark l a b hl hremark hopens hab ih =>
    have ha : Inked a := by
      rcases hab.eq_or_inked with rfl | ⟨ha, -⟩
      · exact inked_of_opensChars hopens
      · exact ha
    rw [List.append_cons, dropTrailingBlank_append _ ha, ← List.append_cons]
    exact .remark hl hremark (opensChars_dropTrailingBlank hopens) ih

/-! ## White space at the start -/

/-- The white space at the start has no line feed. -/
def Flush (cs : List Char) : Prop := '\n' ∉ cs.takeWhile isCodeBlank

theorem flush_of_opensChars {cs : List Char} (h : opensChars cs = true) : Flush cs := by
  induction cs with
  | nil => cases h
  | cons c cs ih =>
    simp only [opensChars, Bool.and_eq_true, Bool.or_eq_true, Bool.not_eq_true', bne_iff_ne] at h
    rw [Flush, List.takeWhile_cons]
    rcases h.2 with hc | hcs
    · simp [hc]
    · split_ifs
      · exact not_or.2 ⟨Ne.symm h.1, ih hcs⟩ ∘ List.mem_cons.1
      · simp

theorem Flush.append {y : List Char} (h : Flush y) (hink : Inked y) (z : List Char) : Flush (y ++ z) := by
  obtain ⟨c, hc, hcink⟩ := hink
  have hshort : (y.takeWhile isCodeBlank).length ≠ y.length := by
    intro hlen
    have hall : y.takeWhile isCodeBlank = y := (List.takeWhile_sublist _).eq_of_length hlen
    have hblank := List.takeWhile_eq_self_iff.1 hall c hc
    rw [hcink] at hblank
    cases hblank
  rw [Flush, List.takeWhile_append, if_neg hshort]
  exact h

/-- The white space at the start up to its last line feed, and the rest. -/
theorem exists_flush (cs : List Char) :
    ∃ u v, cs = u ++ v ∧ (∀ c ∈ u, isCodeBlank c = true) ∧ Whole u ∧ Flush v := by
  induction cs with
  | nil => exact ⟨[], [], rfl, by simp, whole_nil, by simp [Flush]⟩
  | cons c cs ih =>
    obtain ⟨u, v, rfl, hblank, hwhole, hflush⟩ := ih
    cases hc : isCodeBlank c with
    | false => exact ⟨[], _, rfl, by simp, whole_nil, by simp [Flush, hc]⟩
    | true =>
      have hcons : ∀ d ∈ c :: u, isCodeBlank d = true := List.forall_mem_cons.2 ⟨hc, hblank⟩
      by_cases hfeed : c = '\n'
      · subst hfeed
        exact ⟨'\n' :: u, v, rfl, hcons, Whole.append (whole_feed []) hwhole, hflush⟩
      · rcases hwhole.eq_nil_or_feed with rfl | ⟨x, rfl⟩
        · refine ⟨[], c :: v, rfl, by simp, whole_nil, ?_⟩
          rw [Flush, List.takeWhile_cons, if_pos hc]
          exact not_or.2 ⟨Ne.symm hfeed, hflush⟩ ∘ List.mem_cons.1
        · exact ⟨c :: x ++ ['\n'], v, rfl, hcons, whole_feed _, hflush⟩

/-- Read backwards, the white space goes up to its last line feed. -/
theorem takeWhile_reverse_of_flush {u v : List Char} (hu : Whole u) (hv : Flush v) :
    (u ++ v.takeWhile isCodeBlank).reverse.takeWhile (· != '\n') = (v.takeWhile isCodeBlank).reverse := by
  have hback : ∀ c ∈ (v.takeWhile isCodeBlank).reverse, (c != '\n') = true := by
    intro c hc
    refine bne_iff_ne.2 ?_
    rintro rfl
    exact hv (List.mem_reverse.1 hc)
  have hfront : u.reverse.takeWhile (· != '\n') = [] := by
    rcases hu.eq_nil_or_feed with rfl | ⟨x, rfl⟩
    · rfl
    · simp
  rw [List.reverse_append, List.takeWhile_append_of_pos hback, hfront, List.append_nil]

theorem dropLeadingBlank_append {u v : List Char} (hblank : ∀ c ∈ u, isCodeBlank c = true) (hu : Whole u)
    (hv : Flush v) : dropLeadingBlank (u ++ v) = if 1 < u.length then v else u ++ v := by
  have htake : (u ++ v).takeWhile isCodeBlank = u ++ v.takeWhile isCodeBlank := List.takeWhile_append_of_pos hblank
  unfold dropLeadingBlank
  simp only [htake, takeWhile_reverse_of_flush hu hv, List.length_append, List.length_reverse, Nat.add_sub_cancel,
    Nat.add_comm _ 1, Nat.add_lt_add_iff_right, List.drop_left]

/-- The white space that is dropped at the start of an annotated text is in front of all remarks. -/
theorem Annotated.exists_flush {remark : List Char → Prop} (hremark : ∀ l, '\n' ∉ l → remark l → opensChars l = true)
    {a b : List Char} (h : Annotated remark a b) : ∃ u v w, a = u ++ v ∧ b = u ++ w ∧
      (∀ c ∈ u, isCodeBlank c = true) ∧ Whole u ∧ Flush v ∧ Flush w ∧ Annotated remark v w := by
  induction h with
  | same cs =>
    obtain ⟨u, v, rfl, hblank, hwhole, hflush⟩ := Text.exists_flush cs
    exact ⟨u, v, v, rfl, rfl, hblank, hwhole, hflush, hflush, .same v⟩
  | @behind u₀ a b hu₀ hab ih =>
    obtain ⟨x, y, rfl, hblank, hwhole, hflush⟩ := Text.exists_flush u₀
    by_cases hink : Inked y
    · refine ⟨x, y ++ a, y ++ b, by simp, by simp, hblank, hwhole, hflush.append hink a, hflush.append hink b, ?_⟩
      exact .behind hu₀.right hab
    · have hy : ∀ c ∈ y, isCodeBlank c = true := by
        intro c hc
        by_contra hne
        exact hink ⟨c, hc, by simpa using hne⟩
      obtain ⟨u, v, w, rfl, rfl, hu, hwholeu, hv, hw, hvw⟩ := ih
      refine ⟨x ++ y ++ u, v, w, by simp, by simp, ?_, hu₀.append hwholeu, hv, hw, hvw⟩
      exact List.forall_mem_append.2 ⟨List.forall_mem_append.2 ⟨hblank, hy⟩, hu⟩
  | remark hl hr hopens hab =>
    refine ⟨[], _, _, rfl, rfl, by simp, whole_nil, ?_, flush_of_opensChars hopens, .remark hl hr hopens hab⟩
    exact flush_of_opensChars (opensChars_append (hremark _ hl hr) _)

theorem Annotated.dropLeadingBlank {remark : List Char → Prop}
    (hremark : ∀ l, '\n' ∉ l → remark l → opensChars l = true) {a b : List Char} (h : Annotated remark a b) :
    Annotated remark (dropLeadingBlank a) (dropLeadingBlank b) := by
  obtain ⟨u, v, w, rfl, rfl, hblank, hwhole, hv, hw, hvw⟩ := h.exists_flush hremark
  rw [dropLeadingBlank_append hblank hwhole hv, dropLeadingBlank_append hblank hwhole hw]
  split_ifs
  · exact hvw
  · exact .behind hwhole hvw

/-! ## White space at line ends -/

theorem dropLineEndBlank_cons (c : Char) (cs : List Char) : dropLineEndBlank (c :: cs) =
    if isPad c = true ∧ (dropLineEndBlank cs).head? = some '\n' then dropLineEndBlank cs
    else c :: dropLineEndBlank cs := by
  rw [dropLineEndBlank, isPad]
  simp only [Bool.and_eq_true, beq_iff_eq]

theorem dropLineEndBlank_append {u : List Char} (hu : Whole u) (a : List Char) :
    dropLineEndBlank (u ++ a) = dropLineEndBlank u ++ dropLineEndBlank a ∧
      (u ≠ [] → dropLineEndBlank u ≠ []) ∧ Whole (dropLineEndBlank u) := by
  induction u with
  | nil => exact ⟨rfl, id, whole_nil⟩
  | cons c u ih =>
    obtain ⟨happend, hne, hwhole⟩ := ih (Whole.right (u := [c]) hu)
    by_cases hnil : u = []
    · subst hnil
      have hc : c = '\n' := hu c (by simp)
      subst hc
      simp [dropLineEndBlank, Whole]
    · obtain ⟨d, ds, hds⟩ := List.exists_cons_of_ne_nil (hne hnil)
      have hcons : Whole (c :: d :: ds) := by
        rw [hds] at hwhole
        simpa [Whole] using hwhole
      have hhead : (dropLineEndBlank (u ++ a)).head? = (dropLineEndBlank u).head? := by
        rw [happend, hds]
        rfl
      rw [List.cons_append, dropLineEndBlank_cons c (u ++ a), dropLineEndBlank_cons c u, hhead]
      by_cases hdrop : isPad c = true ∧ (dropLineEndBlank u).head? = some '\n'
      · rw [if_pos hdrop, if_pos hdrop]
        exact ⟨happend, fun _ => hne hnil, hwhole⟩
      · rw [if_neg hdrop, if_neg hdrop, happend]
        exact ⟨rfl, by simp, hds ▸ hcons⟩

theorem dropLineEndBlank_line {l : List Char} (hl : '\n' ∉ l) :
    ∃ l', dropLineEndBlank (l ++ ['\n']) = l' ++ ['\n'] ∧ '\n' ∉ l' := by
  induction l with
  | nil => exact ⟨[], rfl, by simp⟩
  | cons c l ih =>
    obtain ⟨hc, hl⟩ := not_or.1 (mt List.mem_cons.2 hl)
    obtain ⟨l', hdropped, hfree⟩ := ih hl
    rw [List.cons_append, dropLineEndBlank_cons, hdropped]
    split_ifs
    · exact ⟨l', rfl, hfree⟩
    · exact ⟨c :: l', rfl, not_or.2 ⟨hc, hfree⟩ ∘ List.mem_cons.1⟩

/-- What stands in front of a slash stays. -/
theorem dropLineEndBlank_slash {pad : List Char} (hpad : ∀ c ∈ pad, isPad c = true) (rest : List Char) :
    dropLineEndBlank (pad ++ '/' :: rest) = pad ++ '/' :: dropLineEndBlank rest := by
  induction pad with
  | nil => simp [dropLineEndBlank]
  | cons c pad ih =>
    obtain ⟨-, hpad⟩ := List.forall_mem_cons.1 hpad
    have hhead : (pad ++ '/' :: dropLineEndBlank rest).head? ≠ some '\n' := by
      cases pad with
      | nil => simp
      | cons d pad =>
        intro hd
        have hfeed := hpad d List.mem_cons_self
        rw [List.cons_append, List.head?_cons, Option.some.injEq] at hd
        rw [hd] at hfeed
        cases hfeed
    rw [List.cons_append, dropLineEndBlank_cons, ih hpad]
    exact if_neg fun hdrop => hhead hdrop.2

theorem exists_slashes {l : List Char} (h : isCommentLine l = true) :
    ∃ pad more, l = pad ++ '/' :: '/' :: more ∧ ∀ c ∈ pad, isPad c = true := by
  obtain ⟨more, hmore⟩ := List.isPrefixOf_iff_prefix.1 h
  refine ⟨l.takeWhile isPad, more, ?_, fun c hc => List.all_eq_true.1 List.all_takeWhile c hc⟩
  calc l = l.takeWhile isPad ++ l.dropWhile isPad := List.takeWhile_append_dropWhile.symm
    _ = l.takeWhile isPad ++ '/' :: '/' :: more := by rw [← hmore]; rfl

/-- A comment line stays one. -/
theorem dropLineEndBlank_comment {l : List Char} (hl : '\n' ∉ l) (h : isCommentLine l = true) :
    ∃ l', dropLineEndBlank (l ++ ['\n']) = l' ++ ['\n'] ∧ '\n' ∉ l' ∧ isCommentLine l' = true := by
  obtain ⟨pad, more, rfl, hpad⟩ := exists_slashes h
  obtain ⟨hfree, hmore⟩ : '\n' ∉ pad ++ ['/', '/'] ∧ '\n' ∉ more := by simpa [and_assoc] using hl
  obtain ⟨more', hdropped, hfree'⟩ := dropLineEndBlank_line hmore
  have hslash : dropLineEndBlank ('/' :: (more ++ ['\n'])) = '/' :: (more' ++ ['\n']) := by
    rw [← hdropped]
    exact dropLineEndBlank_slash (by simp : ∀ c ∈ ([] : List Char), isPad c = true) _
  refine ⟨pad ++ '/' :: '/' :: more', ?_, ?_, isCommentLine_indented hpad (by simp [isCommentLine, isPad])⟩
  · rw [List.append_assoc, List.cons_append, List.cons_append, dropLineEndBlank_slash hpad, hslash]
    simp
  · simpa [and_assoc] using And.intro hfree hfree'

/-! ## Tidied texts -/

/-- A text with comments put in is the text again, when both are without their comment lines. -/
theorem Annotated.dropComments_dropLineEndBlank {a b : List Char} (h : Annotated (isCommentLine · = true) a b) :
    dropCommentsFrom [] (dropLineEndBlank a) = dropCommentsFrom [] (dropLineEndBlank b) := by
  induction h with
  | same cs => rfl
  | behind hu _ ih =>
    have hwhole := (dropLineEndBlank_append hu []).2.2
    rw [(dropLineEndBlank_append hu _).1, (dropLineEndBlank_append hu _).1, dropCommentsFrom_append hwhole,
      dropCommentsFrom_append hwhole, ih]
  | @remark l a b hl hremark _ _ ih =>
    obtain ⟨l', hdropped, hfree, hcomment⟩ := dropLineEndBlank_comment hl hremark
    rw [List.append_cons, (dropLineEndBlank_append (whole_feed l) a).1, hdropped, ← List.append_cons,
      dropCommentsFrom_comment hfree hcomment, ih]

/-- Tidying keeps it so. -/
theorem Annotated.dropComments_tidy {s t : String} (h : Annotated (isCommentLine · = true) s.toList t.toList) :
    dropComments (tidy s) = dropComments (tidy t) := by
  have htrimmed := (h.dropLeadingBlank fun _ hl hcomment => opensChars_comment hl hcomment).dropTrailingBlank
  rw [dropComments, dropComments, tidy, tidy, String.toList_ofList, String.toList_ofList,
    htrimmed.dropComments_dropLineEndBlank]

/-! ## Texts of comments -/

/-- Comment lines and nothing else. -/
def Commentary (s : String) : Prop :=
  ∃ ls : List (List Char), (∀ l ∈ ls, '\n' ∉ l ∧ isCommentLine l = true) ∧ s.toList = ls.flatMap (· ++ ['\n'])

theorem commentary_empty : Commentary "" := ⟨[], by simp, rfl⟩

theorem Commentary.append {s t : String} (hs : Commentary s) (ht : Commentary t) : Commentary (s ++ t) := by
  obtain ⟨ls, hls, hs⟩ := hs
  obtain ⟨ms, hms, ht⟩ := ht
  exact ⟨ls ++ ms, List.forall_mem_append.2 ⟨hls, hms⟩, by rw [String.toList_append, hs, ht, List.flatMap_append]⟩

/-- Comments are nothing, or lines of which the first is not blank. -/
theorem Commentary.lines {s : String} (h : Commentary s) : s = "" ∨ opens s = true ∧ endsLine s = true := by
  obtain ⟨ls, hls, hs⟩ := h
  rcases List.eq_nil_or_concat ls with rfl | ⟨ms, last, rfl⟩
  · exact .inl (String.toList_injective hs)
  · refine .inr ⟨?_, ?_⟩
    · obtain ⟨l, rest, hcons⟩ := List.exists_cons_of_ne_nil (by simp : ms.concat last ≠ [])
      rw [hcons] at hs hls
      obtain ⟨hl, hcomment⟩ := hls l List.mem_cons_self
      rw [opens, hs, List.flatMap_cons]
      exact opensChars_append (opensChars_append (opensChars_comment hl hcomment) _) _
    · exact endsLine_iff.2 ⟨ms.flatMap (· ++ ['\n']) ++ last, by simp [hs]⟩

/-- What leads every line leads the lines behind the first. -/
theorem exists_lines (lead x : List Char) : ∃ (l : List Char) (ls : List (List Char)), '\n' ∉ l ∧ (∀ m ∈ ls, '\n' ∉ m) ∧
    leadAfterFeeds lead x ++ ['\n'] = l ++ '\n' :: ls.flatMap (fun m => lead ++ m ++ ['\n']) := by
  induction x with
  | nil => exact ⟨[], [], by simp, by simp, rfl⟩
  | cons c x ih =>
    obtain ⟨l, ls, hl, hls, hlines⟩ := ih
    rw [leadAfterFeeds]
    split_ifs with hc
    · refine ⟨[], l :: ls, by simp, List.forall_mem_cons.2 ⟨hl, hls⟩, ?_⟩
      rw [List.cons_append, List.append_assoc, hlines, List.flatMap_cons]
      simp
    · refine ⟨c :: l, ls, not_or.2 ⟨Ne.symm hc, hl⟩ ∘ List.mem_cons.1, hls, ?_⟩
      rw [List.cons_append, hlines, List.cons_append]

/-- Any text becomes comments by two slashes in front of every line. -/
theorem commentary_prefixLines (s : String) : Commentary (prefixLines (s ++ "\n") "// ") := by
  obtain ⟨l, ls, hl, hls, hlines⟩ := exists_lines ['/', '/', ' '] s.toList
  have hcomment : ∀ m : List Char, isCommentLine (['/', '/', ' '] ++ m) = true := fun m => rfl
  have hfree : ∀ k ∈ l :: ls, '\n' ∉ k := List.forall_mem_cons.2 ⟨hl, hls⟩
  refine ⟨(l :: ls).map (['/', '/', ' '] ++ ·), ?_, ?_⟩
  · intro m hm
    obtain ⟨k, hk, rfl⟩ := List.mem_map.1 hm
    exact ⟨by simp [hfree k hk], hcomment k⟩
  · have hlead : ("// ").toList = ['/', '/', ' '] := rfl
    have hfeed : ("\n").toList = ['\n'] := rfl
    rw [prefixLines, String.toList_ofList, String.toList_append, hlead, hfeed, prefixChars_feed, List.append_assoc, hlines,
      List.flatMap_map]
    simp

end Blockwright.Text
