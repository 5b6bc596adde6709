import Blockwright.Generator
import Blockwright.Proofs.Names.Requests
import Blockwright.Proofs.Text.Indentation
/-!
# Words that are free from the start

No word that is reserved by default has the digit 0 in it, so a name that has one is free at the
start of a pass, unless it was reserved besides. A word that was reserved as it stands is not free.
-/

namespace Blockwright

/-! ## The characters of reserved words -/

theorem Text.mem_of_mem_trim {c : Char} {s : String} (h : c ∈ (trim s).toList) : c ∈ s.toList := by
  rw [trim, String.toList_ofList, trimChars, List.mem_reverse] at h
  have hback := (List.dropWhile_sublist isBlank).mem h
  rw [List.mem_reverse] at hback
  exact (List.dropWhile_sublist isBlank).mem hback

theorem Text.not_isBlank_of_isWordChar {c : Char} (h : isWordChar c = true) : isBlank c = false := by
  have htable : ∀ n < 128, isWordChar (Char.ofNat n) = true → isBlank (Char.ofNat n) = false := by decide
  have hsmall : c.toNat < 128 := by
    simp only [isWordChar, isLetter, isDigit, Bool.or_eq_true, Bool.and_eq_true, decide_eq_true_eq, beq_iff_eq] at h
    rcases h with ((⟨-, h⟩ | ⟨-, h⟩) | ⟨-, h⟩) | rfl
    · exact Nat.lt_of_le_of_lt h (by decide)
    · exact Nat.lt_of_le_of_lt h (by decide)
    · exact Nat.lt_of_le_of_lt h (by decide)
    · decide
  rw [← Char.ofNat_toNat c] at h ⊢
  exact htable _ hsmall h

theorem Text.trim_of_isLegal {s : String} (h : Identifier.isLegal s = true) : trim s = s := by
  rw [trim, trimChars_eq_self fun c hc => not_isBlank_of_isWordChar (Identifier.isWordChar_of_mem h c hc), String.ofList_toList]

namespace Names

/-- The digit 0 does not stand in a text. -/
def hasNoZero (s : String) : Bool := s.toList.all (· != '0')

theorem hasNoZero_ofList (cs : List Char) : hasNoZero (String.ofList cs) = cs.all (· != '0') := by
  rw [hasNoZero, String.toList_ofList]

theorem hasNoZero_append {a b : String} (ha : hasNoZero a = true) (hb : hasNoZero b = true) :
    hasNoZero (a ++ b) = true := by
  rw [hasNoZero, String.toList_append, List.all_append, Bool.and_eq_true]
  exact ⟨ha, hb⟩

-- literal by literal, each read as its characters: the whole text is too long to evaluate at once
set_option maxRecDepth 2000 in
theorem hasNoZero_reservedList : hasNoZero reservedList = true := by
  unfold reservedList
  repeat' with_reducible apply hasNoZero_append
  all_goals exact (hasNoZero_ofList _).trans (by decide +kernel)

theorem no_zero_of_mem_defaultReserved {word : String} (h : word ∈ defaultReserved) : '0' ∉ word.toList := by
  obtain ⟨piece, hpiece, rfl⟩ := List.mem_map.1 h
  rw [String.toList_ofList]
  intro hzero
  have hall := List.all_eq_true.1 hasNoZero_reservedList _ (Text.mem_of_mem_splitChars hpiece hzero).1
  simp at hall

/-! ## Reserved words of a pass -/

theorem mem_reserved_reserve {n : Names} {words : List String} {word : String}
    (h : word ∈ (n.reserve words).reserved) : word ∈ n.reserved ∨ ∃ w ∈ words, Text.trim w = word := by
  induction words generalizing n with
  | nil => exact .inl h
  | cons w words ih =>
    rw [reserve_cons] at h
    rcases ih h with h | ⟨w', hw', rfl⟩
    · unfold reserveWord at h
      dsimp only at h
      split at h
      · exact .inl h
      · rcases Std.HashSet.mem_insert.1 h with he | h
        · exact .inr ⟨w, List.mem_cons_self, beq_iff_eq.1 he⟩
        · exact .inl h
    · exact .inr ⟨w', List.mem_cons_of_mem _ hw', rfl⟩

theorem mem_reserved_startNames {g : Generator} {ws : Workspace} {word : String}
    (h : word ∈ (g.startNames ws).reserved) :
    (∃ w ∈ defaultReserved, Text.trim w = word) ∨ (∃ w ∈ g.reserved, Text.trim w = word) ∨
      ∃ w ∈ ws.reserved, Text.trim w = word := by
  have hwords : (g.startNames ws).reserved =
    (((new defaultReserved).reserve g.reserved).reserve ws.reserved).reserved := rfl
  rw [hwords] at h
  rcases mem_reserved_reserve h with h | h
  · rcases mem_reserved_reserve h with h | h
    · rw [new] at h
      rcases mem_reserved_reserve h with h | h
      · exact absurd h Std.HashSet.not_mem_empty
      · exact .inl h
    · exact .inr (.inl h)
  · exact .inr (.inr h)

/-- A name with the digit 0 that is not reserved besides is not reserved at the start of a pass. -/
theorem not_mem_reserved_startNames {g : Generator} {ws : Workspace} {name : String} (hzero : '0' ∈ name.toList)
    (hg : g.reserved = []) (hws : ws.reserved = []) : name ∉ (g.startNames ws).reserved := by
  intro h
  rcases mem_reserved_startNames h with ⟨w, hw, rfl⟩ | ⟨w, hw, -⟩ | ⟨w, hw, -⟩
  · exact no_zero_of_mem_defaultReserved hw (Text.mem_of_mem_trim hzero)
  · rw [hg] at hw; cases hw
  · rw [hws] at hw; cases hw

theorem not_mem_used_startNames (g : Generator) (ws : Workspace) (name : String) : name ∉ (g.startNames ws).used := by
  have hempty : (g.startNames ws).used = (((new defaultReserved).reserve g.reserved).reserve ws.reserved).used := rfl
  rw [hempty, used_reserve, used_reserve, new, used_reserve]
  exact Std.HashSet.not_mem_empty

/-- So it is free then. -/
theorem free?_startNames {g : Generator} {ws : Workspace} {name : String} (hzero : '0' ∈ name.toList)
    (hg : g.reserved = []) (hws : ws.reserved = []) : (g.startNames ws).free? name = some name := by
  have htaken : (g.startNames ws).taken name = false := by
    rw [taken, isReserved, Bool.or_eq_false_iff]
    exact ⟨by simpa using not_mem_used_startNames g ws name, by simpa using not_mem_reserved_startNames hzero hg hws⟩
  rw [free?, htaken]
  rfl

theorem mem_reserve_of_mem {n : Names} {word : String} (words : List String) (h : word ∈ n.reserved) :
    word ∈ (n.reserve words).reserved := by
  induction words generalizing n with
  | nil => exact h
  | cons w words ih =>
    rw [reserve_cons]
    refine ih ?_
    unfold reserveWord
    dsimp only
    split
    · exact h
    · exact Std.HashSet.mem_insert.2 (.inr h)

theorem mem_reserve_of_isLegal {n : Names} {words : List String} {word : String} (h : word ∈ words)
    (hlegal : Identifier.isLegal word = true) : word ∈ (n.reserve words).reserved := by
  induction words generalizing n with
  | nil => cases h
  | cons w words ih =>
    rw [reserve_cons]
    rcases List.mem_cons.1 h with rfl | h
    · refine mem_reserve_of_mem words ?_
      rw [reserveWord, Text.trim_of_isLegal hlegal, if_neg (Identifier.ne_empty_of_isLegal hlegal)]
      exact Std.HashSet.mem_insert_self
    · exact ih h

/-- A legal identifier that a generator reserves is taken at the start of a pass. -/
theorem taken_startNames {g : Generator} {ws : Workspace} {word : String} (h : word ∈ g.reserved)
    (hlegal : Identifier.isLegal word = true) : (g.startNames ws).taken word = true := by
  have hmem : word ∈ (((new defaultReserved).reserve g.reserved).reserve ws.reserved).reserved :=
    mem_reserve_of_mem _ (mem_reserve_of_isLegal h hlegal)
  rw [taken, isReserved, Bool.or_eq_true]
  exact .inr (Std.HashSet.contains_iff_mem.2 hmem)

end Names
end Blockwright
