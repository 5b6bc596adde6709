import Blockwright.Proofs.Names.Requests
import Blockwright.Proofs.Text.Utf8
/-!
# One name a key

In a pass over fixed variables a key keeps the name it got, and two keys have one name exactly
when they are kept in one place. A key is kept under its own text and the text of its category,
and that tells any two keys apart but for one clash: the key `k` of an internal variable and the
key `k_DEVELOPER` of a variable of the user are kept in the same place.
-/

namespace Blockwright.Names

/-! ## The place of a key -/

/-- What is written behind a key to keep it apart from the keys of other categories. -/
def mark (category : Category) : Bytes := Text.bytesOf ("_" ++ category.text)

/-- What the mark of an internal variable has in front of the mark of a variable. -/
def clashMark : RawText := .ofString "_DEVELOPER"

theorem bytes_slot (key : RawText) (category : Category) : (slot key category).bytes = key.bytes ++ mark category := rfl

theorem mark_eq (category : Category) : mark category = match category with
    | .variable => [95, 86, 65, 82, 73, 65, 66, 76, 69]
    | .procedure => [95, 80, 82, 79, 67, 69, 68, 85, 82, 69]
    | .developerVariable => clashMark.bytes ++ [95, 86, 65, 82, 73, 65, 66, 76, 69] := by
  cases category <;> simp [mark, clashMark, Category.text, Text.bytesOf_eq] <;> decide

theorem rawText_ext {a b : RawText} (h : a.bytes = b.bytes) : a = b := by
  cases a; cases b; exact congrArg _ h

/-- The one clash of two keys: a variable's key ends with what tells the two categories apart. -/
def Clash (key : RawText) (category : Category) (key' : RawText) (category' : Category) : Prop :=
  category = .variable ∧ category' = .developerVariable ∧ key = key' ++ clashMark

theorem slot_injective {key key' : RawText} {category : Category} (h : slot key category = slot key' category) :
    key = key' := by
  have hb := congrArg RawText.bytes h
  rw [bytes_slot, bytes_slot] at hb
  exact rawText_ext (List.append_cancel_right hb)

theorem slot_variable_developer {key key' : RawText} :
    slot key .variable = slot key' .developerVariable ↔ key = key' ++ clashMark := by
  constructor
  · intro h
    have hb := congrArg RawText.bytes h
    rw [bytes_slot, bytes_slot, mark_eq, mark_eq, ← List.append_assoc] at hb
    exact rawText_ext (List.append_cancel_right hb)
  · rintro rfl
    refine rawText_ext ?_
    rw [bytes_slot, bytes_slot, mark_eq, mark_eq, RawText.bytes_append, List.append_assoc]

theorem slot_procedure_ne {key key' : RawText} {category : Category} (h : category ≠ .procedure) :
    slot key .procedure ≠ slot key' category := by
  intro he
  have hb := congrArg (·.bytes.reverse) he
  simp only [bytes_slot, mark_eq] at hb
  -- the marks differ in the second byte from their end
  cases category <;> simp at hb h

/-- Two keys are kept in one place when they are the same key, or clash. -/
theorem slot_eq_iff (key key' : RawText) (category category' : Category) :
    slot key category = slot key' category' ↔
      (category = category' ∧ key = key') ∨ Clash key category key' category' ∨ Clash key' category' key category := by
  unfold Clash
  by_cases hc : category = category'
  · subst hc
    constructor
    · exact fun h => .inl ⟨rfl, slot_injective h⟩
    · rintro (⟨-, rfl⟩ | ⟨h, h', -⟩ | ⟨h, h', -⟩)
      · rfl
      · rw [h] at h'; cases h'
      · rw [h] at h'; cases h'
  · cases category <;> cases category' <;> simp only [reduceCtorEq, false_and, true_and, and_false, or_false,
      false_or, not_true_eq_false] at hc ⊢
    · exact iff_of_false (fun h => slot_procedure_ne (by simp) h.symm) id
    · exact slot_variable_developer
    · exact iff_of_false (slot_procedure_ne (by simp)) id
    · exact iff_of_false (slot_procedure_ne (by simp)) id
    · exact eq_comm.trans slot_variable_developer
    · exact iff_of_false (fun h => slot_procedure_ne (by simp) h.symm) id

/-! ## Passes over fixed variables -/

/-- Requests that leave the variables and what has been handed out as they are. -/
def Request.steady : Request → Bool
  | .setVariables _ | .reset => false
  | _ => true

theorem ne_reset_of_steady {r : Request} (h : r.steady = true) : r ≠ .reset := by
  rintro rfl
  exact Bool.noConfusion h

theorem idNames_serve (n : Names) {r : Request} (h : r.steady = true) : (n.serve r).2.idNames = n.idNames := by
  cases r with
  | reserve words => exact idNames_reserve n words
  | setVariables idNames => exact Bool.noConfusion h
  | reset => exact Bool.noConfusion h
  | distinct seed category =>
    simp only [serve]
    rcases distinct_cases n seed category with ⟨name, -, hd⟩ | ⟨-, hd⟩ <;> rw [hd]
  | get key category =>
    simp only [serve]
    rcases get_cases n key category with ⟨name, -, hg⟩ | ⟨name, -, -, hg⟩ | ⟨-, -, hg⟩ <;> rw [hg]

theorem resolve_congr {n n' : Names} (h : n'.idNames = n.idNames) (key : RawText) (category : Category) :
    n'.resolve key category = n.resolve key category := by
  rw [resolve, resolve, h]

/-- The name that a key is given is kept for it. -/
theorem known_get {n : Names} {key : RawText} {category : Category} (h : (n.get key category).1 ≠ "") :
    (n.get key category).2.known[slot (n.resolve key category) category]? = some (n.get key category).1 := by
  rcases get_cases n key category with ⟨name, hk, hg⟩ | ⟨name, -, -, hg⟩ | ⟨-, -, hg⟩
  · rw [hg]; exact hk
  · rw [hg]; exact Std.HashMap.getElem?_insert_self
  · rw [hg] at h; exact absurd rfl h

/-- Behind a pass every key that was named still has the name it got. -/
theorem known_of_mem_trace {n : Names} {rs : List Request} (hrs : ∀ r ∈ rs, r.steady = true)
    {key : RawText} {category : Category} {name : String} (h : (.get key category, name) ∈ n.trace rs)
    (hne : name ≠ "") : (n.after rs).known[slot (n.resolve key category) category]? = some name := by
  induction rs generalizing n with
  | nil => simp [trace] at h
  | cons r rs ih =>
    have hr := hrs r List.mem_cons_self
    have hrest := fun r' hr' => hrs r' (List.mem_cons_of_mem _ hr')
    rcases List.mem_cons.1 h with he | h
    · obtain ⟨rfl, rfl⟩ := Prod.mk.inj he
      have hno : .reset ∉ rs := fun hm => ne_reset_of_steady (hrest _ hm) rfl
      exact (grows_after _ hno).known _ _ (known_get hne)
    · rw [← resolve_congr (idNames_serve n hr)]
      exact ih hrest h

/-- In a pass over fixed variables two keys that were named have one name exactly when they are
the same key of the same category, or clash. -/
theorem named_alike_iff (words : List String) (idNames : List (RawText × String)) (rs : List Request)
    (hrs : ∀ r ∈ rs, r.steady = true) {key key' : RawText} {category category' : Category} {name name' : String}
    (h : (.get key category, name) ∈ ({ new words with idNames } : Names).trace rs)
    (h' : (.get key' category', name') ∈ ({ new words with idNames } : Names).trace rs)
    (hne : name ≠ "") (hne' : name' ≠ "") :
    let n : Names := { new words with idNames }
    name = name' ↔ (category = category' ∧ n.resolve key category = n.resolve key' category') ∨
      Clash (n.resolve key category) category (n.resolve key' category') category' ∨
      Clash (n.resolve key' category') category' (n.resolve key category) category := by
  intro n
  have hn : n.Sound := (sound_new words).congr rfl rfl
  have hk := known_of_mem_trace hrs h hne
  have hk' := known_of_mem_trace hrs h' hne'
  rw [← slot_eq_iff]
  constructor
  · rintro rfl
    exact (hn.after rs).known_inj _ _ _ hk hk'
  · intro hs
    rw [hs, hk'] at hk
    exact (Option.some.inj hk).symm

/-- A variable asked for by its id and then by its name has one name. -/
theorem named_alike_by_id :
    ∃ n : Names, n = { new [] with idNames := [(.ofString "id", "b")] } ∧
      n.trace [.get (.ofString "id") .variable, .get (.ofString "b") .variable] =
        [(.get (.ofString "id") .variable, "b"), (.get (.ofString "b") .variable, "b")] ∧
      ("b" = "b" ↔ (Category.variable = .variable ∧
          n.resolve (.ofString "id") .variable = n.resolve (.ofString "b") .variable) ∨
        Clash (n.resolve (.ofString "id") .variable) .variable (n.resolve (.ofString "b") .variable) .variable ∨
        Clash (n.resolve (.ofString "b") .variable) .variable (n.resolve (.ofString "id") .variable) .variable) := by
  have hne : (RawText.ofString "b" == RawText.ofString "id") = false := by
    simp [RawText.ofString, Text.bytesOf_eq]; decide
  have hid : Identifier.ofText (.ofString "b") = "b" := by
    rw [Identifier.ofText, RawText.bytes_ofString, Text.bytesOf_eq]
    decide
  have htrace : ({ new [] with idNames := [(.ofString "id", "b")] } : Names).trace
      [.get (.ofString "id") .variable, .get (.ofString "b") .variable] =
        [(.get (.ofString "id") .variable, "b"), (.get (.ofString "b") .variable, "b")] := by
    simp [trace, serve, get, resolve, new, reserve, distinct, distinctFrom, free?, taken, isReserved, hid, hne,
      List.lookup_cons]
  exact ⟨_, rfl, htrace, named_alike_iff [] [(.ofString "id", "b")]
    [.get (.ofString "id") .variable, .get (.ofString "b") .variable] (by simp [Request.steady])
    (htrace ▸ List.mem_cons_self) (htrace ▸ List.mem_cons_of_mem _ List.mem_cons_self) (by decide) (by decide)⟩

/-- So names do not tell all keys apart: `a_DEVELOPER`, a variable of the user, and the internal
variable `a` are both named `a_DEVELOPER`. -/
theorem clashing_keys_share_name :
    ¬ ∀ (words : List String) (idNames : List (RawText × String)) (rs : List Request),
      (∀ r ∈ rs, r.steady = true) → ∀ key key' category category' name name',
      (.get key category, name) ∈ ({ new words with idNames } : Names).trace rs →
      (.get key' category', name') ∈ ({ new words with idNames } : Names).trace rs →
      name ≠ "" → name' ≠ "" →
      (name = name' ↔ category = category' ∧
        ({ new words with idNames } : Names).resolve key category =
          ({ new words with idNames } : Names).resolve key' category') := by
  intro h
  have hs : slot (.ofString "a_DEVELOPER") .variable = slot (.ofString "a") .developerVariable :=
    slot_variable_developer.2 (RawText.ofString_append "a" "_DEVELOPER")
  have hid : Identifier.ofText (.ofString "a_DEVELOPER") = "a_DEVELOPER" := by
    rw [Identifier.ofText, RawText.bytes_ofString, Text.bytesOf_eq]
    decide
  have htrace : ({ new [] with idNames := [] } : Names).trace
      [.get (.ofString "a_DEVELOPER") .variable, .get (.ofString "a") .developerVariable] =
      [(.get (.ofString "a_DEVELOPER") .variable, "a_DEVELOPER"),
        (.get (.ofString "a") .developerVariable, "a_DEVELOPER")] := by
    simp [trace, serve, get, resolve, new, reserve, distinct, distinctFrom, free?, taken, isReserved, hid, hs]
  have hiff := h [] [] [.get (.ofString "a_DEVELOPER") .variable, .get (.ofString "a") .developerVariable]
    (by simp [Request.steady]) _ _ _ _ _ _ (htrace ▸ List.mem_cons_self)
    (htrace ▸ List.mem_cons_of_mem _ List.mem_cons_self) (by decide) (by decide)
  exact absurd (hiff.1 rfl).1 (by decide)

end Blockwright.Names
