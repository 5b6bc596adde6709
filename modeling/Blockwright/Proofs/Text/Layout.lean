import Mathlib.Tactic.SplitIfs
import Blockwright.Proofs.Text.Scan
import Blockwright.Text.Lines
/-!
# Layout and the scanner

Indenting lines with spaces and tabs and changing the unit of indentation leave sealed code sealed,
and tidying blank space leaves neutral code neutral: behind a line feed the scanner passes over blank
space, in code and in a string alike. Tidying also keeps a first line of code as it is.
-/

namespace Blockwright.Scan

open Text

/-! ## Blank space -/

/-- The states behind a line feed: no slash, backslash or comment is open. -/
def State.settled : State → Bool
  | .on .code _ | .on (.quoted _) _ | .broken => true
  | _ => false

theorem isPlain_of_isCodeBlank {c : Char} (h : isCodeBlank c = true) : isPlain c = true := by
  simp only [isCodeBlank, Bool.or_eq_true, beq_iff_eq] at h
  rcases h with (((rfl | rfl) | rfl) | rfl) | rfl <;> decide

theorem ne_of_isCodeBlank {c d : Char} (h : isCodeBlank c = true) (hd : isCodeBlank d = false) : c ≠ d := by
  rintro rfl
  rw [h] at hd
  exact Bool.noConfusion hd

theorem isCodeBlank_mark (mark : Mark) : isCodeBlank mark.char = false := by
  cases mark <;> decide

theorem settled_step_feed (σ : State) : (step σ '\n').settled = true := by
  rcases σ with ⟨_ | _ | mark | mark | _, owed⟩ | _
  · rfl
  · rfl
  · cases mark <;> rfl
  · rfl
  · rfl
  · rfl

theorem step_blank {σ : State} {c : Char} (hσ : σ.settled = true) (hc : isCodeBlank c = true) : step σ c = σ := by
  rcases σ with ⟨_ | _ | mark | _ | _, owed⟩ | _
  · exact inCode_plain (isPlain_of_isCodeBlank hc)
  · exact absurd hσ (by simp [State.settled])
  · have hback : c ≠ '\\' := ne_of_isCodeBlank hc (by decide)
    have hmark : c ≠ mark.char := ne_of_isCodeBlank hc (isCodeBlank_mark mark)
    simp [step, hback, hmark]
  · exact absurd hσ (by simp [State.settled])
  · exact absurd hσ (by simp [State.settled])
  · rfl

theorem run_blank {σ : State} {cs : List Char} (hσ : σ.settled = true) (hcs : ∀ c ∈ cs, isCodeBlank c = true) :
    run σ cs = σ := by
  induction cs with
  | nil => rfl
  | cons c cs ih =>
    rw [run_cons, step_blank hσ (hcs c List.mem_cons_self)]
    exact ih fun d hd => hcs d (List.mem_cons_of_mem _ hd)

/-! ## Indentation -/

theorem settled_strictStep_feed (σ : State) : (strictStep σ '\n').settled = true := by
  rcases strictStep_cases σ '\n' with h | h
  · rw [h]
    rfl
  · rw [h]
    exact settled_step_feed σ

theorem strictStep_pad {σ : State} {c : Char} (hσ : σ.settled = true) (hc : c = ' ' ∨ c = '\t') : strictStep σ c = σ := by
  have hblank : isCodeBlank c = true := by rcases hc with rfl | rfl <;> decide
  have hfeed : c ≠ '\n' := by rcases hc with rfl | rfl <;> decide
  have hstep := step_blank hσ hblank
  rcases σ with ⟨_ | _ | mark | _ | _, owed⟩ | _
  · exact hstep
  · exact hstep
  · rw [strictStep, if_neg hfeed]
    exact hstep
  · exact hstep
  · exact hstep
  · exact hstep

theorem strict_pad {σ : State} {cs : List Char} (hσ : σ.settled = true) (hcs : ∀ c ∈ cs, c = ' ' ∨ c = '\t') :
    strict σ cs = σ := by
  induction cs with
  | nil => rfl
  | cons c cs ih =>
    rw [strict_cons, strictStep_pad hσ (hcs c List.mem_cons_self)]
    exact ih fun d hd => hcs d (List.mem_cons_of_mem _ hd)

theorem strict_leadAfterFeeds {lead : List Char} (hlead : ∀ c ∈ lead, c = ' ' ∨ c = '\t') (σ : State) (cs : List Char) :
    strict σ (leadAfterFeeds lead cs) = strict σ cs := by
  induction cs generalizing σ with
  | nil => rfl
  | cons c cs ih =>
    rw [leadAfterFeeds]
    split_ifs with hc
    · subst hc
      rw [strict_cons, strict_append, strict_pad (settled_strictStep_feed σ) hlead, ih, strict_cons]
    · rw [strict_cons, ih, strict_cons]

theorem strict_prefixChars {lead : List Char} (hlead : ∀ c ∈ lead, c = ' ' ∨ c = '\t') {σ : State}
    (hσ : σ.settled = true) (cs : List Char) : strict σ (prefixChars lead cs) = strict σ cs := by
  unfold prefixChars
  split_ifs with hlast
  · obtain ⟨ds, rfl⟩ := List.getLast?_eq_some_iff.1 hlast
    rw [List.dropLast_concat, strict_append, strict_append, strict_pad hσ hlead, strict_leadAfterFeeds hlead,
      strict_append]
  · rw [strict_append, strict_pad hσ hlead, strict_leadAfterFeeds hlead]

theorem sealed_prefixLines {code indent : String} (h : Sealed code)
    (hindent : ∀ c ∈ indent.toList, c = ' ' ∨ c = '\t') : Sealed (prefixLines code indent) := by
  intro owed
  rw [prefixLines, String.toList_ofList, strict_prefixChars hindent rfl]
  exact h owed

theorem strict_reindentChars {unit : List Char} (hunit : ∀ c ∈ unit, c = ' ' ∨ c = '\t') (start : Bool)
    (cs : List Char) (σ : State) (hσ : start = true → σ.settled = true) :
    strict σ (reindentChars unit start cs) = strict σ cs := by
  fun_induction reindentChars unit start cs generalizing σ with
  | case1 rest ih =>
    -- two blanks at the start of a line make way for one unit
    rw [strict_append, strict_pad (hσ rfl) hunit, ih σ hσ, strict_cons, strict_cons, strictStep_pad (hσ rfl) (.inl rfl),
      strictStep_pad (hσ rfl) (.inl rfl)]
  | case2 start rest ih =>
    rw [strict_cons, ih (strictStep σ '\n') fun _ => settled_strictStep_feed σ, strict_cons]
  | case3 start c rest _ _ ih =>
    rw [strict_cons, ih (strictStep σ c) (by simp), strict_cons]
  | case4 => rfl

theorem sealed_reindent {unit code : String} (h : Sealed code)
    (hunit : ∀ c ∈ unit.toList, c = ' ' ∨ c = '\t') : Sealed (reindent unit code) := by
  intro owed
  rw [reindent, String.toList_ofList, strict_reindentChars hunit true _ _ fun _ => rfl]
  exact h owed

/-! ## Tidying -/

theorem run_dropLeadingBlank {σ : State} (hσ : σ.settled = true) (cs : List Char) :
    run σ (dropLeadingBlank cs) = run σ cs := by
  unfold dropLeadingBlank
  extract_lets blank tail
  split_ifs
  · have hlen : blank.length - tail ≤ (cs.takeWhile isCodeBlank).length := Nat.sub_le _ _
    have htake : cs.take (blank.length - tail) = blank.take (blank.length - tail) := by
      rw [← List.take_append_of_le_length hlen, List.takeWhile_append_dropWhile]
    have hblank : ∀ c ∈ cs.take (blank.length - tail), isCodeBlank c = true := by
      intro c hc
      rw [htake] at hc
      exact List.all_eq_true.1 List.all_takeWhile c (List.mem_of_mem_take hc)
    calc run σ (cs.drop (blank.length - tail))
        = run (run σ (cs.take (blank.length - tail))) (cs.drop (blank.length - tail)) := by rw [run_blank hσ hblank]
      _ = run σ cs := by rw [← run_append, List.take_append_drop]
  · rfl

/-- The white space at the end goes behind its first line feed, if it has one. -/
theorem dropTrailingBlank_cases (cs : List Char) : dropTrailingBlank cs = cs ∨
    ∃ front more, cs = front ++ '\n' :: more ∧ (∀ c ∈ more, isCodeBlank c = true) ∧
      dropTrailingBlank cs = front ++ ['\n'] := by
  unfold dropTrailingBlank
  extract_lets blank body start
  split_ifs with hstart
  · have hsplit : (cs.reverse.dropWhile isCodeBlank).reverse ++ blank = cs := by
      rw [← List.reverse_append, List.takeWhile_append_dropWhile, List.reverse_reverse]
    have hlen : cs.length - blank.length = (cs.reverse.dropWhile isCodeBlank).reverse.length := by
      rw [← congrArg List.length hsplit, List.length_append, Nat.add_sub_cancel]
    have hbody : body = (cs.reverse.dropWhile isCodeBlank).reverse := by
      show cs.take (cs.length - blank.length) = _
      rw [hlen, ← congrArg (List.take _) hsplit, List.take_left]
    obtain ⟨more, hmore⟩ : ∃ more, blank.dropWhile (· != '\n') = '\n' :: more := by
      have hnot := List.head?_dropWhile_not (· != '\n') blank
      cases hrest : blank.dropWhile (· != '\n') with
      | nil =>
        have hall : start = blank := by
          rw [← List.append_nil start, ← hrest, List.takeWhile_append_dropWhile]
        exact absurd (congrArg List.length hall) (Nat.ne_of_lt hstart)
      | cons c more =>
        rw [hrest] at hnot
        exact ⟨more, by simpa using hnot⟩
    refine .inr ⟨body ++ start, more, ?_, fun c hc => ?_, rfl⟩
    · rw [List.append_assoc, ← hmore, List.takeWhile_append_dropWhile, hbody, hsplit]
    · have hmem : c ∈ blank := (List.dropWhile_sublist _).subset (hmore ▸ List.mem_cons_of_mem _ hc)
      exact List.all_eq_true.1 List.all_takeWhile c (List.mem_reverse.1 hmem)
  · exact .inl rfl

theorem run_dropTrailingBlank (σ : State) (cs : List Char) : run σ (dropTrailingBlank cs) = run σ cs := by
  rcases dropTrailingBlank_cases cs with h | ⟨front, more, hcs, hblank, h⟩
  · rw [h]
  · calc run σ (dropTrailingBlank cs)
        = run (run σ front) ('\n' :: more) := by
          rw [h, run_append, run_cons, run_cons, run_nil, run_blank (settled_step_feed _) hblank]
      _ = run σ cs := by rw [hcs, run_append]

theorem step_blank_feed (σ : State) {c : Char} (hc : c = ' ' ∨ c = '\t') : step (step σ c) '\n' = step σ '\n' := by
  rcases σ with ⟨_ | _ | mark | mark | _, owed⟩ | _ <;> rcases hc with rfl | rfl <;> try cases mark
  all_goals rfl

theorem run_dropLineEndBlank (σ : State) (cs : List Char) : run σ (dropLineEndBlank cs) = run σ cs := by
  induction cs generalizing σ with
  | nil => rfl
  | cons c cs ih =>
    rw [dropLineEndBlank]
    split_ifs with h
    · simp only [Bool.and_eq_true, Bool.or_eq_true, beq_iff_eq] at h
      obtain ⟨more, hmore⟩ : ∃ more, dropLineEndBlank cs = '\n' :: more := List.head?_eq_some_iff.1 h.2
      rw [run_cons, ← ih (step σ c), hmore, run_cons, run_cons, step_blank_feed σ h.1]
    · rw [run_cons, ih, run_cons]

theorem neutral_tidy {code : String} (h : Neutral code) : Neutral (tidy code) := by
  intro owed
  rw [tidy, String.toList_ofList, run_dropLineEndBlank, run_dropTrailingBlank, run_dropLeadingBlank rfl]
  exact h owed

/-! ## The first line -/

section
variable {line : List Char}

theorem dropLeadingBlank_of_head {c : Char} {cs : List Char} (h : isCodeBlank c = false) :
    dropLeadingBlank (c :: cs) = c :: cs := by
  unfold dropLeadingBlank
  rw [List.takeWhile_cons, h]
  rfl

theorem dropTrailingBlank_line (hline : '\n' ∉ line) (rest : List Char) :
    ∃ rest', dropTrailingBlank (line ++ '\n' :: rest) = line ++ '\n' :: rest' := by
  rcases dropTrailingBlank_cases (line ++ '\n' :: rest) with h | ⟨front, more, hcs, -, h⟩
  · exact ⟨rest, h⟩
  · rw [h]
    -- the line is the front, or the front goes on behind the line's own feed
    rcases List.append_eq_append_iff.1 hcs with ⟨between, rfl, hbetween⟩ | ⟨between, rfl, hbetween⟩
    · cases between with
      | nil => exact ⟨[], by simp⟩
      | cons c cs =>
        obtain ⟨rfl, -⟩ := List.cons.inj hbetween
        exact ⟨cs ++ ['\n'], by simp⟩
    · cases between with
      | nil => exact ⟨[], by simp⟩
      | cons c cs =>
        obtain ⟨rfl, -⟩ := List.cons.inj hbetween
        simp at hline

theorem dropLineEndBlank_line (hline : '\n' ∉ line) (hlast : ∀ c ∈ line.getLast?, isCodeBlank c = false)
    (rest : List Char) : ∃ rest', dropLineEndBlank (line ++ '\n' :: rest) = line ++ '\n' :: rest' := by
  induction line with
  | nil => exact ⟨dropLineEndBlank rest, by simp [dropLineEndBlank]⟩
  | cons c cs ih =>
    obtain ⟨hc, hcs⟩ := not_or.1 (mt List.mem_cons.2 hline)
    obtain ⟨rest', hrest⟩ := ih hcs fun d hd => hlast d (by cases cs <;> simp_all)
    refine ⟨rest', ?_⟩
    rw [List.cons_append, dropLineEndBlank, hrest]
    refine if_neg fun h => ?_
    simp only [Bool.and_eq_true, Bool.or_eq_true, beq_iff_eq] at h
    cases cs with
    | nil =>
      have hblank := hlast c rfl
      rcases h.1 with rfl | rfl <;> cases hblank
    | cons d ds =>
      have hd : d = '\n' := by simpa using h.2
      exact hcs (hd ▸ List.mem_cons_self)

/-- Tidying keeps a first line that neither begins nor ends with white space. -/
theorem tidy_line {line : String} (hline : '\n' ∉ line.toList)
    (hfirst : ∃ c ∈ line.toList.head?, isCodeBlank c = false)
    (hlast : ∀ c ∈ line.toList.getLast?, isCodeBlank c = false) (rest : String) :
    ∃ rest', tidy (line ++ "\n" ++ rest) = line ++ "\n" ++ rest' := by
  obtain ⟨c, hc, hblank⟩ := hfirst
  obtain ⟨cs, hcs⟩ := List.head?_eq_some_iff.1 hc
  have hcode : (line ++ "\n" ++ rest).toList = line.toList ++ '\n' :: rest.toList := by simp
  have hlead : dropLeadingBlank (line.toList ++ '\n' :: rest.toList) = line.toList ++ '\n' :: rest.toList := by
    rw [hcs, List.cons_append, dropLeadingBlank_of_head hblank]
  obtain ⟨rest₁, htrail⟩ := dropTrailingBlank_line hline rest.toList
  obtain ⟨rest₂, hends⟩ := dropLineEndBlank_line hline hlast rest₁
  refine ⟨String.ofList rest₂, String.toList_injective ?_⟩
  rw [tidy, String.toList_ofList, hcode, hlead, htrail, hends]
  simp

end
end Blockwright.Scan
