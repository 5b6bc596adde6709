import Mathlib.Data.List.Chain
import Blockwright.Proofs.Text.CommentLines
/-!
# Tidy texts

A tidy text has no line feed with only white space in front of it but as its first character, none
with only white space behind it but as its last one, and none behind a space or a tab. Each of the
three replacements brings about one of these and keeps what those before it have brought about, so a
tidied text is tidy; and tidying a tidy text changes nothing.
-/

namespace Blockwright.Text

/-- A line feed with only white space in front of it is the first character. -/
def Headed (cs : List Char) : Prop :=
  ∀ u v, cs = u ++ '\n' :: v → (∀ c ∈ u, isCodeBlank c = true) → u = []

/-- No line feed stands behind a space or a tab. -/
def Trimmed (cs : List Char) : Prop := cs.IsChain fun c d => d = '\n' → isPad c = false

/-- What is left to none of the three replacements. White space at the end is white space at the
start, read backwards. -/
structure Tidy (cs : List Char) : Prop where
  headed : Headed cs
  ended : Headed cs.reverse
  trimmed : Trimmed cs

theorem isCodeBlank_of_isPad {c : Char} (h : isPad c = true) : isCodeBlank c = true := by
  simp only [isPad, Bool.or_eq_true, beq_iff_eq] at h
  rcases h with rfl | rfl <;> rfl

/-! ## White space at the start -/

theorem Headed.of_isPrefix {x y : List Char} (h : Headed y) (hxy : x <+: y) : Headed x := by
  rintro u v rfl hblank
  obtain ⟨z, rfl⟩ := hxy
  exact h u (v ++ z) (by simp) hblank

theorem not_flush {u : List Char} (hblank : ∀ c ∈ u, isCodeBlank c = true) (v : List Char) :
    ¬ Flush (u ++ '\n' :: v) := by
  rw [Flush, List.takeWhile_append_of_pos hblank]
  simp [isCodeBlank]

/-- White space without a line feed may follow nothing or a line feed. -/
theorem Flush.headed {v : List Char} (h : Flush v) : Headed v := by
  rintro u w rfl hblank
  exact absurd h (not_flush hblank w)

theorem Flush.headed_cons {v : List Char} (h : Flush v) : Headed ('\n' :: v) := by
  intro u w hcons hblank
  cases u with
  | nil => rfl
  | cons c u =>
    have hu : u = [] := h.headed u w (List.cons.inj hcons).2 fun d hd => hblank d (List.mem_cons_of_mem c hd)
    subst hu
    obtain ⟨-, rfl⟩ := List.cons.inj hcons
    exact absurd h (not_flush (u := []) (by simp) w)

/-- In a text that is headed, the white space that goes up to a line feed is nothing or that line feed. -/
theorem Headed.eq_nil_or_feed {u v : List Char} (h : Headed (u ++ v)) (hblank : ∀ c ∈ u, isCodeBlank c = true)
    (hu : Whole u) : u = [] ∨ u = ['\n'] := by
  rcases hu.eq_nil_or_feed with rfl | ⟨x, rfl⟩
  · exact .inl rfl
  · have hx : x = [] := h x v (by simp) fun c hc => hblank c (List.mem_append_left _ hc)
    exact .inr (by rw [hx]; rfl)

theorem headed_dropLeadingBlank (cs : List Char) : Headed (dropLeadingBlank cs) := by
  obtain ⟨u, v, rfl, hblank, hwhole, hflush⟩ := exists_flush cs
  rw [dropLeadingBlank_append hblank hwhole hflush]
  split_ifs with hlong
  · exact hflush.headed
  · rcases hwhole.eq_nil_or_feed with rfl | ⟨x, rfl⟩
    · exact hflush.headed
    · have hx : x = [] := by simpa using hlong
      subst hx
      exact hflush.headed_cons

theorem Headed.dropLeadingBlank_eq {cs : List Char} (h : Headed cs) : dropLeadingBlank cs = cs := by
  obtain ⟨u, v, rfl, hblank, hwhole, hflush⟩ := exists_flush cs
  rw [dropLeadingBlank_append hblank hwhole hflush]
  rcases h.eq_nil_or_feed hblank hwhole with rfl | rfl <;> rfl

/-- The white space at the start has no line feed left, unless the line feed that it has is the first
character and the only one. -/
theorem flush_dropLeadingBlank {cs : List Char} (h : ∀ v, cs = '\n' :: v → ¬ Flush v) :
    Flush (dropLeadingBlank cs) := by
  obtain ⟨u, v, rfl, hblank, hwhole, hflush⟩ := exists_flush cs
  rw [dropLeadingBlank_append hblank hwhole hflush]
  split_ifs with hlong
  · exact hflush
  · rcases hwhole.eq_nil_or_feed with rfl | ⟨x, rfl⟩
    · exact hflush
    · have hx : x = [] := by simpa using hlong
      subst hx
      exact absurd hflush (h v rfl)

/-! ## White space at the end -/

/-- Of the white space at the end, read backwards, one line feed stays. -/
theorem dropTrailingBlank_reverse {u v : List Char} (hblank : ∀ c ∈ u, isCodeBlank c = true) (hu : Whole u)
    (hv : Flush v) :
    dropTrailingBlank (u ++ v).reverse = ((if u = [] then [] else ['\n']) ++ v).reverse := by
  have htake : (u ++ v).takeWhile isCodeBlank = u ++ v.takeWhile isCodeBlank := List.takeWhile_append_of_pos hblank
  have hbody : (u ++ v).reverse.take (v.length - (v.takeWhile isCodeBlank).length)
      = (v.dropWhile isCodeBlank).reverse := by
    have hlen : v.length - (v.takeWhile isCodeBlank).length = (v.dropWhile isCodeBlank).reverse.length := by
      rw [← congrArg List.length (List.takeWhile_append_dropWhile (p := isCodeBlank) (l := v)), List.length_append,
        List.length_reverse, Nat.add_sub_cancel_left]
    rw [hlen, ← congrArg (u ++ ·) (List.takeWhile_append_dropWhile (p := isCodeBlank) (l := v)), List.reverse_append,
      List.reverse_append, List.append_assoc, List.take_left]
  have hwhole : (v.dropWhile isCodeBlank).reverse ++ (v.takeWhile isCodeBlank).reverse = v.reverse := by
    rw [← List.reverse_append, List.takeWhile_append_dropWhile]
  unfold dropTrailingBlank
  simp only [List.reverse_reverse, htake, takeWhile_reverse_of_flush hu hv, List.length_reverse, List.length_append,
    Nat.add_sub_add_left, hbody, Nat.lt_add_left_iff_pos, List.length_pos_iff, hwhole]
  by_cases hnil : u = []
  · rw [if_neg (not_not.2 hnil), if_pos hnil, hnil]
  · rw [if_pos hnil, if_neg hnil, List.reverse_append]
    rfl

theorem isPrefix_dropTrailingBlank (cs : List Char) : dropTrailingBlank cs <+: cs := by
  rcases Scan.dropTrailingBlank_cases cs with h | ⟨front, more, hcs, -, h⟩
  · exact ⟨[], by rw [h, List.append_nil]⟩
  · exact ⟨more, by rw [h, hcs]; simp⟩

theorem ended_dropTrailingBlank (cs : List Char) : Headed (dropTrailingBlank cs).reverse := by
  obtain ⟨u, v, hrev, hblank, hwhole, hflush⟩ := exists_flush cs.reverse
  rw [← List.reverse_reverse cs, hrev, dropTrailingBlank_reverse hblank hwhole hflush, List.reverse_reverse]
  split_ifs
  · exact hflush.headed
  · exact hflush.headed_cons

theorem Headed.dropTrailingBlank_eq {cs : List Char} (h : Headed cs.reverse) : dropTrailingBlank cs = cs := by
  obtain ⟨u, v, hrev, hblank, hwhole, hflush⟩ := exists_flush cs.reverse
  rw [← List.reverse_reverse cs, hrev, dropTrailingBlank_reverse hblank hwhole hflush]
  rw [hrev] at h
  rcases h.eq_nil_or_feed hblank hwhole with rfl | rfl <;> rfl

/-! ## Line ends -/

theorem trimmed_dropLineEndBlank (cs : List Char) : Trimmed (dropLineEndBlank cs) := by
  induction cs with
  | nil => exact List.isChain_nil
  | cons c cs ih =>
    rw [dropLineEndBlank_cons]
    split_ifs with hdrop
    · exact ih
    · refine List.isChain_cons.2 ⟨?_, ih⟩
      rintro d hd rfl
      exact Bool.eq_false_iff.2 fun hpad => hdrop ⟨hpad, hd⟩

theorem Trimmed.dropLineEndBlank_eq {cs : List Char} (h : Trimmed cs) : dropLineEndBlank cs = cs := by
  induction cs with
  | nil => rfl
  | cons c cs ih =>
    obtain ⟨hhead, htail⟩ := List.isChain_cons.1 h
    rw [dropLineEndBlank_cons, ih htail]
    refine if_neg fun hdrop => ?_
    rw [hhead _ hdrop.2 rfl] at hdrop
    cases hdrop.1

/-- A line feed of the trimmed text is one of the text. What stands in front of it has lost spaces and
tabs at most, and not all of them if nothing else was there; what stands behind it is trimmed. -/
theorem exists_of_dropLineEndBlank_eq {cs u v : List Char} (h : dropLineEndBlank cs = u ++ '\n' :: v) :
    ∃ u' v', cs = u' ++ '\n' :: v' ∧ (∀ c ∈ u', c ∈ u ∨ isPad c = true) ∧ (u' = [] → u = []) ∧
      dropLineEndBlank v' = v := by
  induction cs generalizing u with
  | nil => simp [dropLineEndBlank] at h
  | cons c cs ih =>
    rw [dropLineEndBlank_cons] at h
    split_ifs at h with hdrop
    · obtain ⟨u', v', rfl, hu', -, hv'⟩ := ih h
      exact ⟨c :: u', v', rfl, List.forall_mem_cons.2 ⟨.inr hdrop.1, hu'⟩, by simp, hv'⟩
    · cases u with
      | nil =>
        obtain ⟨rfl, rfl⟩ := List.cons.inj h
        exact ⟨[], cs, rfl, by simp, id, rfl⟩
      | cons d u =>
        obtain ⟨rfl, hcs⟩ := List.cons.inj h
        obtain ⟨u', v', rfl, hu', -, hv'⟩ := ih hcs
        refine ⟨c :: u', v', rfl, List.forall_mem_cons.2 ⟨.inl List.mem_cons_self, fun d hd => ?_⟩, by simp, hv'⟩
        exact (hu' d hd).imp (List.mem_cons_of_mem c) id

theorem blank_of_dropLineEndBlank {cs : List Char} (h : ∀ c ∈ dropLineEndBlank cs, isCodeBlank c = true) :
    ∀ c ∈ cs, isCodeBlank c = true := by
  induction cs with
  | nil => simp
  | cons c cs ih =>
    rw [dropLineEndBlank_cons] at h
    split_ifs at h with hdrop
    · exact List.forall_mem_cons.2 ⟨isCodeBlank_of_isPad hdrop.1, ih h⟩
    · obtain ⟨hc, hcs⟩ := List.forall_mem_cons.1 h
      exact List.forall_mem_cons.2 ⟨hc, ih hcs⟩

theorem Headed.dropLineEndBlank {cs : List Char} (h : Headed cs) : Headed (dropLineEndBlank cs) := by
  intro u v hsplit hblank
  obtain ⟨u', v', hcs, hkept, hnil, -⟩ := exists_of_dropLineEndBlank_eq hsplit
  exact hnil (h u' v' hcs fun c hc => (hkept c hc).elim (hblank c) isCodeBlank_of_isPad)

theorem ended_dropLineEndBlank {cs : List Char} (h : Headed cs.reverse) : Headed (dropLineEndBlank cs).reverse := by
  intro u v hsplit hblank
  have hforward : Text.dropLineEndBlank cs = v.reverse ++ '\n' :: u.reverse := by
    rw [← List.reverse_reverse (Text.dropLineEndBlank cs), hsplit]
    simp
  obtain ⟨v', u', hcs, -, -, hu'⟩ := exists_of_dropLineEndBlank_eq hforward
  have hblank' : ∀ c ∈ u'.reverse, isCodeBlank c = true := by
    have hdropped : ∀ c ∈ Text.dropLineEndBlank u', isCodeBlank c = true := by
      rw [hu']
      simpa using hblank
    simpa using blank_of_dropLineEndBlank hdropped
  have hnil : u'.reverse = [] := h u'.reverse v'.reverse (by rw [hcs]; simp) hblank'
  rw [List.reverse_eq_nil_iff.1 hnil] at hu'
  exact List.reverse_eq_nil_iff.1 hu'.symm

/-! ## Tidied texts -/

/-- A tidied text is tidy, whatever the text was. -/
theorem tidy_tidy (s : String) : Tidy (tidy s).toList := by
  have hheaded : Headed (dropTrailingBlank (dropLeadingBlank s.toList)) :=
    (headed_dropLeadingBlank s.toList).of_isPrefix (isPrefix_dropTrailingBlank _)
  rw [tidy, String.toList_ofList]
  exact ⟨hheaded.dropLineEndBlank, ended_dropLineEndBlank (ended_dropTrailingBlank _), trimmed_dropLineEndBlank _⟩

/-- Nothing is left to any of the replacements. -/
theorem Tidy.fixed {cs : List Char} (h : Tidy cs) :
    dropLeadingBlank cs = cs ∧ dropTrailingBlank cs = cs ∧ dropLineEndBlank cs = cs :=
  ⟨h.headed.dropLeadingBlank_eq, h.ended.dropTrailingBlank_eq, h.trimmed.dropLineEndBlank_eq⟩

theorem Tidy.tidy_eq {s : String} (h : Tidy s.toList) : tidy s = s := by
  obtain ⟨hlead, htrail, hends⟩ := h.fixed
  rw [tidy, hlead, htrail, hends, String.ofList_toList]

theorem Tidy.not_feeds_isSuffix {cs : List Char} (h : Tidy cs) : ¬ ['\n', '\n'] <:+ cs := by
  rintro ⟨front, rfl⟩
  have hnil := h.ended ['\n'] front.reverse (by simp) (by simp [isCodeBlank])
  cases hnil

theorem Tidy.not_isPad_feed {c : Char} {cs u v : List Char} (h : Tidy cs) (hcs : cs = u ++ c :: '\n' :: v) :
    isPad c = false := by
  subst hcs
  exact (List.isChain_cons_cons.1 (List.isChain_append.1 h.trimmed).2.1).1 rfl

/-- A text that does not begin with one line feed alone is tidied to one that begins with none. -/
theorem head?_tidy {s : String} (h : ∀ v, s.toList = '\n' :: v → ¬ Flush v) :
    (tidy s).toList.head? ≠ some '\n' := by
  intro hfeed
  obtain ⟨v, hsplit⟩ := List.head?_eq_some_iff.1 hfeed
  rw [tidy, String.toList_ofList] at hsplit
  obtain ⟨u', v', hcs, hpads, -, -⟩ := exists_of_dropLineEndBlank_eq (u := []) hsplit
  obtain ⟨more, hmore⟩ := isPrefix_dropTrailingBlank (dropLeadingBlank s.toList)
  have hflush := flush_dropLeadingBlank h
  rw [← hmore, hcs, List.append_assoc, List.cons_append] at hflush
  have hblank : ∀ c ∈ u', isCodeBlank c = true := fun c hc => isCodeBlank_of_isPad ((hpads c hc).resolve_left (by simp))
  exact not_flush hblank _ hflush

end Blockwright.Text
