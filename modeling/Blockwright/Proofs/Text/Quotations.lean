import Blockwright.Proofs.Text.Tidiness
/-!
# The literals of a program

The string literals of a program, read in order with their quotation marks, outside comments. Tidying
leaves those of sealed code as they are: behind a line feed the code is outside strings, so the white
space that is dropped at either end is outside them, and in front of a line feed there is a backslash
when a string goes on, and no space.
-/

namespace Blockwright.Scan

open Text

/-- Where a scanner that lets brackets be is behind a character of code. -/
def Place.behind (c : Char) : Place :=
  if c = '\'' then .quoted .single else if c = '"' then .quoted .double else if c = '/' then .slash else .code

/-- Where a scanner that lets brackets be is behind a character. -/
def Place.next : Place → Char → Place
  | .code, c => .behind c
  | .slash, c => if c = '/' then .comment else .behind c
  | .quoted mark, c => if c = '\\' then .escaped mark else if c = mark.char then .code else .quoted mark
  | .escaped mark, _ => .quoted mark
  | .comment, c => if c = '\n' then .code else .comment

/-- Whether a string is read. -/
def Place.inString : Place → Bool
  | .quoted _ | .escaped _ => true
  | .code | .slash | .comment => false

/-- The literals that the characters close; `literal` is what is already read of the current one. -/
def literalsFrom (place : Place) (literal : List Char) : List Char → List (List Char)
  | [] => []
  | c :: rest =>
    if (place.next c).inString then literalsFrom (place.next c) (literal ++ [c]) rest
    else if place.inString then (literal ++ [c]) :: literalsFrom (place.next c) [] rest
    else literalsFrom (place.next c) [] rest

/-- The single- and double-quoted literals of a program, in order and with their marks. -/
def literals (code : String) : List String := (literalsFrom .code [] code.toList).map String.ofList

example : literals "f('\\'a', \"'\"); // it's 'b'\n" = ["'\\'a'", "\"'\""] := by decide +kernel

/-! ## Where the scanner is -/

theorem inCode_on (owed : List Char) (c : Char) :
    inCode owed c = .broken ∨ ∃ owed', inCode owed c = .on (.behind c) owed' := by
  unfold inCode Place.behind
  split_ifs with hsingle hdouble hslash hround hsquare hcurly hclosing
  · exact .inr ⟨_, rfl⟩
  · exact .inr ⟨_, rfl⟩
  · exact .inr ⟨_, rfl⟩
  · exact .inr ⟨_, rfl⟩
  · exact .inr ⟨_, rfl⟩
  · exact .inr ⟨_, rfl⟩
  · cases owed with
    | nil => exact .inl rfl
    | cons o owed =>
      rw [close]
      split_ifs
      · exact .inr ⟨owed, rfl⟩
      · exact .inl rfl
  · exact .inr ⟨_, rfl⟩

/-- The scanner that counts brackets is at the same place, until one does not match. -/
theorem step_on (place : Place) (owed : List Char) (c : Char) :
    step (.on place owed) c = .broken ∨ ∃ owed', step (.on place owed) c = .on (place.next c) owed' := by
  cases place with
  | code => exact inCode_on owed c
  | slash =>
    rw [step, Place.next]
    split_ifs
    · exact .inr ⟨owed, rfl⟩
    · exact inCode_on owed c
  | quoted mark =>
    rw [step, Place.next]
    split_ifs
    · exact .inr ⟨owed, rfl⟩
    · exact .inr ⟨owed, rfl⟩
    · exact .inr ⟨owed, rfl⟩
  | escaped mark => exact .inr ⟨owed, rfl⟩
  | comment =>
    rw [step, Place.next]
    split_ifs
    · exact .inr ⟨owed, rfl⟩
    · exact .inr ⟨owed, rfl⟩

/-- A strict scanner that comes through a character. -/
theorem strict_cons_on {place : Place} {owed : List Char} {c : Char} {cs : List Char}
    (h : strict (.on place owed) (c :: cs) ≠ .broken) :
    ∃ owed', strict (.on place owed) (c :: cs) = strict (.on (place.next c) owed') cs := by
  rw [strict_cons] at h
  have hne : strictStep (.on place owed) c ≠ .broken := by
    intro hbroken
    rw [hbroken, strict_broken] at h
    exact h rfl
  have hstep : strictStep (.on place owed) c = step (.on place owed) c := (strictStep_cases _ _).resolve_left hne
  obtain ⟨owed', hon⟩ := (step_on place owed c).resolve_left (hstep ▸ hne)
  exact ⟨owed', by rw [strict_cons, hstep, hon]⟩

/-! ## Tidying -/

theorem literalsFrom_code_blank {u : List Char} (hblank : ∀ c ∈ u, isCodeBlank c = true) (cs : List Char) :
    literalsFrom .code [] (u ++ cs) = literalsFrom .code [] cs := by
  induction u with
  | nil => rfl
  | cons c u ih =>
    obtain ⟨hc, hu⟩ := List.forall_mem_cons.1 hblank
    have hnext : Place.code.next c = .code := by
      simp only [isCodeBlank, Bool.or_eq_true, beq_iff_eq] at hc
      rcases hc with (((rfl | rfl) | rfl) | rfl) | rfl <;> rfl
    rw [List.cons_append, literalsFrom, hnext]
    exact ih hu

/-- Outside strings a line feed ends what is there. -/
theorem literalsFrom_feed {place : Place} (h : place.inString = false) (literal cs : List Char) :
    literalsFrom place literal ('\n' :: cs) = literalsFrom .code [] cs := by
  cases place <;> first | rfl | cases h

theorem literalsFrom_dropLeadingBlank (cs : List Char) :
    literalsFrom .code [] (dropLeadingBlank cs) = literalsFrom .code [] cs := by
  obtain ⟨u, v, rfl, hblank, hwhole, hflush⟩ := exists_flush cs
  rw [dropLeadingBlank_append hblank hwhole hflush]
  split_ifs
  · exact (literalsFrom_code_blank hblank v).symm
  · rfl

/-- Behind a line feed of a string only the string can go on, and white space does not end it. -/
theorem literalsFrom_trailing {place : Place} {owed owed' literal front more : List Char}
    (hblank : ∀ c ∈ more, isCodeBlank c = true)
    (h : strict (.on place owed) (front ++ '\n' :: more) = .on .code owed') :
    literalsFrom place literal (front ++ ['\n']) = literalsFrom place literal (front ++ '\n' :: more) := by
  induction front generalizing place owed literal with
  | nil =>
    have hout : place.inString = false := by
      cases place with
      | quoted mark =>
        rw [List.nil_append, strict_cons] at h
        cases h.symm.trans (strict_broken more)
      | escaped mark =>
        have hquoted : strict (.on (.quoted mark) owed) more = .on .code owed' := h
        have hrun : run (.on (.quoted mark) owed) more = .on .code owed' := by
          rw [run_of_strict (by rw [hquoted]; simp), hquoted]
        rw [run_blank rfl hblank] at hrun
        cases hrun
      | _ => rfl
    have hmore := literalsFrom_code_blank hblank []
    rw [List.append_nil] at hmore
    rw [List.nil_append, List.nil_append, literalsFrom_feed hout, literalsFrom_feed hout, hmore]
  | cons c front ih =>
    rw [List.cons_append] at h
    obtain ⟨owed₁, hrest⟩ := strict_cons_on (by rw [h]; simp)
    rw [hrest] at h
    rw [List.cons_append, List.cons_append, literalsFrom, literalsFrom, ih h, ih h]

theorem literalsFrom_dropTrailingBlank {place : Place} {owed owed' literal cs : List Char}
    (h : strict (.on place owed) cs = .on .code owed') :
    literalsFrom place literal (dropTrailingBlank cs) = literalsFrom place literal cs := by
  rcases dropTrailingBlank_cases cs with hsame | ⟨front, more, rfl, hblank, hdropped⟩
  · rw [hsame]
  · rw [hdropped]
    exact literalsFrom_trailing hblank h

/-- In a string, spaces and tabs do not lead to a line feed. -/
theorem strict_quoted_feed {cs w : List Char} (h : dropLineEndBlank cs = '\n' :: w) (mark : Mark) (owed : List Char) :
    strict (.on (.quoted mark) owed) cs = .broken := by
  obtain ⟨u, v, rfl, hpads, -, -⟩ := exists_of_dropLineEndBlank_eq (u := []) h
  have hpad : ∀ c ∈ u, c = ' ' ∨ c = '\t' := fun c hc => by simpa [isPad] using hpads c hc
  rw [strict_append, strict_pad rfl hpad, strict_cons]
  exact strict_broken v

theorem literalsFrom_dropLineEndBlank {place : Place} {owed literal cs : List Char}
    (h : strict (.on place owed) cs ≠ .broken) :
    literalsFrom place literal (dropLineEndBlank cs) = literalsFrom place literal cs := by
  induction cs generalizing place owed literal with
  | nil => rfl
  | cons c cs ih =>
    obtain ⟨owed', hrest⟩ := strict_cons_on h
    rw [hrest] at h
    rw [dropLineEndBlank_cons]
    split_ifs with hdrop
    · obtain ⟨w, hw⟩ := List.head?_eq_some_iff.1 hdrop.2
      have hpad : c = ' ' ∨ c = '\t' := by simpa [isPad] using hdrop.1
      -- behind a space or a tab in a string there is no line feed
      have hout : place.inString = false ∧ (place.next c).inString = false := by
        cases place with
        | quoted mark =>
          have hnext : (Place.quoted mark).next c = .quoted mark := by
            rcases hpad with rfl | rfl <;> cases mark <;> rfl
          rw [hnext] at h
          exact absurd (strict_quoted_feed hw mark owed') h
        | escaped mark => exact absurd (strict_quoted_feed hw mark owed') h
        | _ => rcases hpad with rfl | rfl <;> exact ⟨rfl, rfl⟩
      calc literalsFrom place literal (dropLineEndBlank cs)
          = literalsFrom .code [] w := by rw [hw, literalsFrom_feed hout.1]
        _ = literalsFrom (place.next c) [] cs := by rw [← ih h, hw, literalsFrom_feed hout.2]
        _ = literalsFrom place literal (c :: cs) := by rw [literalsFrom, hout.1, hout.2]; rfl
    · rw [literalsFrom, literalsFrom, ih h, ih h]

theorem strict_dropLeadingBlank (owed cs : List Char) :
    strict (.on .code owed) (dropLeadingBlank cs) = strict (.on .code owed) cs := by
  obtain ⟨u, v, rfl, hblank, hwhole, hflush⟩ := exists_flush cs
  rw [dropLeadingBlank_append hblank hwhole hflush]
  split_ifs
  · rw [strict_append, strict_plain fun c hc => isPlain_of_isCodeBlank (hblank c hc)]
  · rfl

/-- Tidying sealed code keeps its literals. -/
theorem Sealed.literals_tidy {code : String} (h : Sealed code) : literals (tidy code) = literals code := by
  have hled : strict (.on .code []) (dropLeadingBlank code.toList) = .on .code [] := by
    rw [strict_dropLeadingBlank, h]
  have hcut : strict (.on .code []) (dropTrailingBlank (dropLeadingBlank code.toList)) ≠ .broken := by
    intro hbroken
    obtain ⟨more, hmore⟩ := isPrefix_dropTrailingBlank (dropLeadingBlank code.toList)
    rw [← hmore, strict_append, hbroken, strict_broken] at hled
    cases hled
  rw [literals, literals, tidy, String.toList_ofList, literalsFrom_dropLineEndBlank hcut,
    literalsFrom_dropTrailingBlank hled, literalsFrom_dropLeadingBlank]

end Blockwright.Scan
