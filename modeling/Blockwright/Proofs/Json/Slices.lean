import Mathlib.Data.List.Forall2
import Blockwright.Proofs.Json.Scanning
/-!
# Slices of a document are its members

What the reader takes for a value is read as the same value when it stands alone, and the splitter of
values passes over it as a whole. So the slices of a document that is an object are its members in the
order written, each one the text that its value was read from.
-/

namespace Blockwright.Json

/-! ## Passing over texts -/

/-- The splitter of values passes over a text: between these levels of brackets it keeps the text and goes on behind
it, outside of strings. -/
def Crosses (depth : Nat) (w : Bytes) (depth' : Nat) : Prop :=
  ∀ tail, splitValue depth false (w ++ tail) = (w ++ (splitValue depth' false tail).1, (splitValue depth' false tail).2)

/-- A byte outside of strings that changes nothing. -/
def isPassing (b : UInt8) : Bool := b != 0x22 && b != 0x2C && !isOpening b && !isClosing b

namespace Crosses

variable {depth depth' depth'' : Nat} {w w' : Bytes}

theorem nil (depth : Nat) : Crosses depth [] depth := fun _ => rfl

theorem append (h : Crosses depth w depth') (h' : Crosses depth' w' depth'') : Crosses depth (w ++ w') depth'' := by
  intro tail
  rw [List.append_assoc, h, h', List.append_assoc]

theorem passing {b : UInt8} (h : isPassing b = true) (depth : Nat) : Crosses depth [b] depth := by
  simp only [isPassing, Bool.and_eq_true, bne_iff_ne, Bool.not_eq_true'] at h
  obtain ⟨⟨⟨hquote, hcomma⟩, hopening⟩, hclosing⟩ := h
  intro tail
  rw [List.cons_append, splitValue, if_neg (by simp [hcomma, hclosing]), beq_eq_false_iff_ne.2 hquote]
  simp [hopening, hclosing]

theorem all_passing (h : ∀ b ∈ w, isPassing b = true) (depth : Nat) : Crosses depth w depth := by
  induction w with
  | nil => exact nil depth
  | cons b bs ih => exact (passing (h b List.mem_cons_self) depth).append (ih fun c hc => h c (List.mem_cons_of_mem _ hc))

theorem opening {b : UInt8} (h : isOpening b = true) (depth : Nat) : Crosses depth [b] (depth + 1) := by
  intro tail
  have hb : b = 0x5B ∨ b = 0x7B := by simpa [isOpening] using h
  rcases hb with rfl | rfl <;> simp [splitValue, isOpening, isClosing]

theorem closing {b : UInt8} (h : isClosing b = true) (depth : Nat) : Crosses (depth + 1) [b] depth := by
  intro tail
  have hb : b = 0x5D ∨ b = 0x7D := by simpa [isClosing] using h
  rcases hb with rfl | rfl <;> simp [splitValue, isOpening, isClosing]

/-- Inside brackets a comma ends nothing. -/
theorem comma (depth : Nat) : Crosses (depth + 1) [0x2C] (depth + 1) := by
  intro tail
  simp [splitValue, isOpening, isClosing]

theorem quoted {body : Bytes} (h : Quoted body) (depth : Nat) : Crosses depth (0x22 :: (body ++ [0x22])) depth := by
  intro tail
  rw [List.cons_append, List.append_assoc, splitValue]
  simp [isOpening, isClosing, h.value]

end Crosses

theorem isPassing_of_ne {b : UInt8} (h : b ∉ [0x22, 0x2C, 0x5B, 0x7B, 0x5D, 0x7D]) : isPassing b = true := by
  simp only [List.mem_cons, List.not_mem_nil, or_false, not_or] at h
  simp [isPassing, isOpening, isClosing, h]

theorem isPassing_of_isNumberByte {b : UInt8} (h : isNumberByte b = true) : isPassing b = true := by
  refine isPassing_of_ne fun hb => ?_
  simp only [List.mem_cons, List.not_mem_nil, or_false] at hb
  rcases hb with rfl | rfl | rfl | rfl | rfl | rfl <;> cases h

theorem isPassing_of_isSpace {b : UInt8} (h : isSpace b = true) : isPassing b = true := by
  refine isPassing_of_ne fun hb => ?_
  simp only [List.mem_cons, List.not_mem_nil, or_false] at hb
  rcases hb with rfl | rfl | rfl | rfl | rfl | rfl <;> cases h

theorem Crosses.space {space : Bytes} (h : ∀ b ∈ space, isSpace b = true) (depth : Nat) : Crosses depth space depth :=
  .all_passing (fun b hb => isPassing_of_isSpace (h b hb)) depth

/-! ## White space -/

theorem skipSpace_append {space : Bytes} {b : UInt8} (hspace : ∀ b ∈ space, isSpace b = true) (hb : isSpace b = false) (bs : Bytes) :
    skipSpace (space ++ b :: bs) = b :: bs := by
  rw [skipSpace, List.dropWhile_append_of_pos hspace, List.dropWhile_cons_of_neg (by simp [hb])]

theorem prefix_behind {tail rest : Bytes} (h : tail <+: rest) (w : Bytes) : w ++ tail <+: w ++ rest :=
  (List.prefix_append_right_inj w).2 h

theorem exists_space {bytes more : Bytes} {b : UInt8} (h : skipSpace bytes = b :: more) :
    ∃ space, (∀ c ∈ space, isSpace c = true) ∧ bytes = space ++ b :: more ∧ isSpace b = false := by
  have hspace : ∀ c ∈ bytes.takeWhile isSpace, isSpace c = true := fun c hc => List.mem_takeWhile_imp hc
  have hb : isSpace b = false := by
    have hhead := List.head?_dropWhile_not isSpace bytes
    rw [← skipSpace, h] at hhead
    exact hhead
  refine ⟨bytes.takeWhile isSpace, hspace, ?_, hb⟩
  rw [← h]
  exact List.takeWhile_append_dropWhile.symm

/-! ## Texts of values -/

/-- A byte that a value can begin with. -/
def isFront (b : UInt8) : Bool := !isSpace b && b != 0x2C && b != 0x3A && b != 0x5D

theorem isSpace_of_isFront {b : UInt8} (h : isFront b = true) : isSpace b = false := by
  simp only [isFront, Bool.and_eq_true, Bool.not_eq_true'] at h
  exact h.1.1.1

theorem isFront_of_isNumberByte {b : UInt8} (h : isNumberByte b = true) : isFront b = true := by
  have hspace : isSpace b = false := Bool.eq_false_iff.2 fun hspace => by
    simp only [isSpace, Bool.or_eq_true, beq_iff_eq] at hspace
    rcases hspace with ((rfl | rfl) | rfl) | rfl <;> cases h
  have hne : ∀ c, isNumberByte c = false → b ≠ c := fun c hc hbc => by rw [← hbc, h] at hc; cases hc
  simp [isFront, hspace, hne 0x2C rfl, hne 0x3A rfl, hne 0x5D rfl]

/-- The text that a value was read from, in front of a rest. -/
structure IsValue (room : Nat) (w : Bytes) (j : Json) (rest : Bytes) : Prop where
  /-- It is read again when the document ends earlier. -/
  again : ∀ {tail}, tail <+: rest → ∀ {room' n}, room ≤ room' → 2 * w.length ≤ n →
    value? room' n (w ++ tail) = some (j, tail)
  crosses : ∀ depth, Crosses depth w depth
  front : ∃ b bs, w = b :: bs ∧ isFront b = true
  back : ∃ bs b, w = bs ++ [b] ∧ isSpace b = false

namespace IsValue

variable {room : Nat} {w rest : Bytes} {j : Json}

/-- Alone it is a document of that value. -/
theorem parse?_eq (h : IsValue room w j rest) (hroom : room ≤ maxDepth) : parse? w = some j := by
  obtain ⟨b, bs, hw, hb⟩ := h.front
  have hskip : skipSpace w = w := by rw [hw, skipSpace, List.dropWhile_cons_of_neg (by simp [isSpace_of_isFront hb])]
  have hread := h.again List.nil_prefix hroom (n := 2 * w.length + 2) (by omega)
  rw [List.append_nil] at hread
  rw [parse?, parseFront?, hskip, hread]
  rfl

theorem trimEnd_eq (h : IsValue room w j rest) {space : Bytes} (hspace : ∀ b ∈ space, isSpace b = true) :
    trimEnd (w ++ space) = w := by
  obtain ⟨bs, b, rfl, hb⟩ := h.back
  have hback : ∀ c ∈ space.reverse, isSpace c = true := fun c hc => hspace c (List.mem_reverse.1 hc)
  rw [trimEnd, List.reverse_append, List.dropWhile_append_of_pos hback, List.reverse_append, List.reverse_singleton,
    List.singleton_append, List.dropWhile_cons_of_neg (by simp [hb])]
  simp

end IsValue

/-- The text that the items of an array were read from, up to and with its closing bracket. -/
structure IsItems (room : Nat) (w : Bytes) (items : List Json) (rest : Bytes) : Prop where
  again : ∀ {tail}, tail <+: rest → ∀ {room' n}, room ≤ room' → 2 * w.length ≤ n →
    items? room' n (w ++ tail) = some (items, tail)
  crosses : ∀ depth, Crosses (depth + 1) w depth
  front : ∃ b bs, w = b :: bs ∧ isFront b = true
  back : ∃ bs, w = bs ++ [0x5D]

/-- The text that the members of an object were read from, up to and with its closing brace. -/
structure IsMembers (room : Nat) (w : Bytes) (ms : List (String × Json)) (rest : Bytes) : Prop where
  again : ∀ {tail}, tail <+: rest → ∀ {room' n}, room ≤ room' → 2 * w.length ≤ n →
    members? room' n (w ++ tail) = some (ms, tail)
  crosses : ∀ depth, Crosses (depth + 1) w depth
  front : ∃ bs, w = 0x22 :: bs
  back : ∃ bs, w = bs ++ [0x7D]
  /-- Its slices are the texts of its members. -/
  slices : ∃ ss, (∀ tail fuel, w.length ≤ fuel → slicesFrom fuel (w ++ tail) = ss) ∧
    List.Forall₂ (fun m s => s.1 = m.1 ∧ (room ≤ maxDepth → parse? s.2 = some m.2) ∧ s.2 <:+: w) ms ss

/-! ## Single values -/

namespace IsValue

variable {room : Nat} {rest : Bytes}

theorem null (room : Nat) (rest : Bytes) : IsValue room [0x6E, 0x75, 0x6C, 0x6C] .null rest where
  again _ _ fuel _ hfuel := by
    obtain ⟨fuel, rfl⟩ := Nat.exists_eq_add_one.2 (Nat.lt_of_lt_of_le (by decide) hfuel)
    rfl
  crosses := .all_passing (List.all_eq_true.1 (by decide))
  front := ⟨_, _, rfl, by decide⟩
  back := ⟨[0x6E, 0x75, 0x6C], _, rfl, by decide⟩

theorem true (room : Nat) (rest : Bytes) : IsValue room [0x74, 0x72, 0x75, 0x65] (.bool Bool.true) rest where
  again _ _ fuel _ hfuel := by
    obtain ⟨fuel, rfl⟩ := Nat.exists_eq_add_one.2 (Nat.lt_of_lt_of_le (by decide) hfuel)
    rfl
  crosses := .all_passing (List.all_eq_true.1 (by decide))
  front := ⟨_, _, rfl, by decide⟩
  back := ⟨[0x74, 0x72, 0x75], _, rfl, by decide⟩

theorem false (room : Nat) (rest : Bytes) : IsValue room [0x66, 0x61, 0x6C, 0x73, 0x65] (.bool Bool.false) rest where
  again _ _ fuel _ hfuel := by
    obtain ⟨fuel, rfl⟩ := Nat.exists_eq_add_one.2 (Nat.lt_of_lt_of_le (by decide) hfuel)
    rfl
  crosses := .all_passing (List.all_eq_true.1 (by decide))
  front := ⟨_, _, rfl, by decide⟩
  back := ⟨[0x66, 0x61, 0x6C, 0x73], _, rfl, by decide⟩

theorem string {body : Bytes} {s : String} (hquoted : Quoted body)
    (hread : ∀ tail, string? (body ++ 0x22 :: tail) = some (s, tail)) (room : Nat) (rest : Bytes) :
    IsValue room (0x22 :: (body ++ [0x22])) (.str s) rest where
  again {tail} _ _ fuel _ hfuel := by
    obtain ⟨fuel, rfl⟩ := Nat.exists_eq_add_one.2 (Nat.lt_of_lt_of_le (by simp) hfuel)
    rw [List.cons_append, List.append_assoc, List.singleton_append, value?, hread]
    rfl
  crosses := .quoted hquoted
  front := ⟨_, _, rfl, by decide⟩
  back := ⟨0x22 :: body, _, rfl, by decide⟩

theorem value?_number {fuel : Nat} {b : UInt8} (hb : isDigit b = Bool.true ∨ b = 0x2D) (bs : Bytes) :
    value? room (fuel + 1) (b :: bs) = (number? (b :: bs)).map fun (text, rest) => (.num text, rest) := by
  have hne : ∀ c ∈ [0x6E, 0x74, 0x66, 0x22, 0x5B, 0x7B], b ≠ c := by
    rintro c hc rfl
    simp only [List.mem_cons, List.not_mem_nil, or_false] at hc
    rcases hc with rfl | rfl | rfl | rfl | rfl | rfl <;> revert hb <;> decide
  simp only [List.forall_mem_cons] at hne
  obtain ⟨h₁, h₂, h₃, h₄, h₅, h₆, -⟩ := hne
  rw [value?.eq_def]
  dsimp only
  split
  all_goals first
    | rfl
    | (rename_i heq; exact absurd (List.cons.inj heq).1 (by assumption))

theorem exists_number {bytes rest : Bytes} {text : String} (h : number? bytes = some (text, rest)) (room : Nat) :
    ∃ w, bytes = w ++ rest ∧ IsValue room w (.num text) rest := by
  obtain ⟨w, rfl, hall, hagain⟩ := takes_number h
  obtain ⟨b, bs, hw, hb⟩ : ∃ b bs, w = b :: bs ∧ (isDigit b = Bool.true ∨ b = 0x2D) := by
    obtain ⟨b, bs, hcons, hb⟩ := exists_front_of_number (hagain [] List.nil_prefix)
    exact ⟨b, bs, by simpa using hcons, hb⟩
  refine ⟨w, rfl, ?_, .all_passing fun c hc => isPassing_of_isNumberByte (hall c hc), ?_, ?_⟩
  · intro tail htail room' fuel _ hfuel
    obtain ⟨fuel, rfl⟩ := Nat.exists_eq_add_one.2 (Nat.lt_of_lt_of_le (by simp [hw]) hfuel)
    have hread := hagain tail htail
    rw [hw, List.cons_append] at hread ⊢
    rw [value?_number hb, hread]
    rfl
  · exact ⟨b, bs, hw, isFront_of_isNumberByte (hall b (hw ▸ List.mem_cons_self))⟩
  · obtain hnil | ⟨front, last, hlast⟩ := List.eq_nil_or_concat w
    · rw [hw] at hnil
      cases hnil
    · rw [List.concat_eq_append] at hlast
      have hback := hall last (hlast ▸ List.mem_append_right _ List.mem_cons_self)
      exact ⟨front, last, hlast, isSpace_of_isFront (isFront_of_isNumberByte hback)⟩

/-! ## Arrays and objects -/

variable {fuel : Nat} {x bs w space : Bytes} {b : UInt8}

theorem sourceBetween_append (w tail : Bytes) : sourceBetween (w ++ tail) tail = ⟨w⟩ := by
  simp [sourceBetween]

theorem value?_emptyArray (hx : skipSpace x = 0x5D :: bs) :
    value? (room + 1) (fuel + 1) (0x5B :: x) = some (.arr (sourceBetween (0x5B :: x) bs) [], bs) := by
  rw [value?, hx]
  rfl

theorem value?_array (hx : skipSpace x = b :: bs) (hb : b ≠ 0x5D) :
    value? (room + 1) (fuel + 1) (0x5B :: x) = (items? room fuel (b :: bs)).map fun (items, rest) =>
      (.arr (sourceBetween (0x5B :: x) rest) items, rest) := by
  rw [value?, hx]
  split
  · rename_i heq
    exact absurd (List.cons.inj heq).1 hb
  · rfl

theorem value?_emptyObject (hx : skipSpace x = 0x7D :: bs) :
    value? (room + 1) (fuel + 1) (0x7B :: x) = some (.object [], bs) := by
  rw [value?, hx]
  rfl

theorem value?_object (hx : skipSpace x = 0x22 :: bs) :
    value? (room + 1) (fuel + 1) (0x7B :: x) = (members? room fuel (0x22 :: bs)).map fun (ms, rest) => (.object ms, rest) := by
  rw [value?, hx]
  rfl

/-- Brackets around a text are passed over with it. -/
theorem crosses_bracketed {opening : UInt8} (hopening : isOpening opening = Bool.true)
    (hspace : ∀ b ∈ space, isSpace b = Bool.true) {depth : Nat} (hw : Crosses (depth + 1) w depth) :
    Crosses depth (opening :: (space ++ w)) depth :=
  ((Crosses.opening hopening depth).append (.space hspace _)).append hw

theorem emptyArray (hspace : ∀ b ∈ space, isSpace b = Bool.true) (room : Nat) (rest : Bytes) :
    IsValue (room + 1) (0x5B :: (space ++ [0x5D])) (.arr ⟨0x5B :: (space ++ [0x5D])⟩ []) rest where
  again {tail} _ room' fuel hroom hfuel := by
    obtain ⟨fuel, rfl⟩ := Nat.exists_eq_add_one.2 (Nat.lt_of_lt_of_le (by simp) hfuel)
    obtain ⟨room', rfl⟩ := Nat.exists_eq_add_one.2 (Nat.zero_lt_of_lt hroom)
    have hskip : skipSpace (space ++ [0x5D] ++ tail) = 0x5D :: tail := by
      rw [List.append_assoc]
      exact skipSpace_append hspace rfl tail
    rw [List.cons_append, value?_emptyArray hskip, ← List.cons_append, sourceBetween_append]
  crosses _ := crosses_bracketed rfl hspace (.closing rfl _)
  front := ⟨_, _, rfl, by decide⟩
  back := ⟨0x5B :: space, _, rfl, by decide⟩

theorem array {items : List Json} (h : IsItems room w items rest) (hspace : ∀ b ∈ space, isSpace b = Bool.true) :
    IsValue (room + 1) (0x5B :: (space ++ w)) (.arr ⟨0x5B :: (space ++ w)⟩ items) rest where
  again {tail} htail room' fuel hroom hfuel := by
    obtain ⟨fuel, rfl⟩ := Nat.exists_eq_add_one.2 (Nat.lt_of_lt_of_le (by simp) hfuel)
    obtain ⟨room', rfl⟩ := Nat.exists_eq_add_one.2 (Nat.zero_lt_of_lt hroom)
    obtain ⟨b, bs, hw, hb⟩ := h.front
    have hskip : skipSpace (space ++ w ++ tail) = b :: (bs ++ tail) := by
      rw [List.append_assoc, hw]
      exact skipSpace_append hspace (isSpace_of_isFront hb) _
    have hbracket : b ≠ 0x5D := fun hbracket => by rw [hbracket] at hb; cases hb
    have hitems := h.again htail (Nat.le_of_succ_le_succ hroom) (n := fuel)
      (by simp only [List.length_cons, List.length_append] at hfuel; omega)
    rw [hw, List.cons_append] at hitems
    rw [List.cons_append, value?_array hskip hbracket, hitems, Option.map_some]
    dsimp only
    rw [← List.cons_append, sourceBetween_append]
  crosses depth := crosses_bracketed rfl hspace (h.crosses depth)
  front := ⟨_, _, rfl, by decide⟩
  back := by
    obtain ⟨bs, rfl⟩ := h.back
    exact ⟨0x5B :: (space ++ bs), 0x5D, by simp, by decide⟩

theorem emptyObject (hspace : ∀ b ∈ space, isSpace b = Bool.true) (room : Nat) (rest : Bytes) :
    IsValue (room + 1) (0x7B :: (space ++ [0x7D])) (.object []) rest where
  again {tail} _ room' fuel hroom hfuel := by
    obtain ⟨fuel, rfl⟩ := Nat.exists_eq_add_one.2 (Nat.lt_of_lt_of_le (by simp) hfuel)
    obtain ⟨room', rfl⟩ := Nat.exists_eq_add_one.2 (Nat.zero_lt_of_lt hroom)
    have hskip : skipSpace (space ++ [0x7D] ++ tail) = 0x7D :: tail := by
      rw [List.append_assoc]
      exact skipSpace_append hspace rfl tail
    rw [List.cons_append, value?_emptyObject hskip]
  crosses _ := crosses_bracketed rfl hspace (.closing rfl _)
  front := ⟨_, _, rfl, by decide⟩
  back := ⟨0x7B :: space, _, rfl, by decide⟩

theorem object {ms : List (String × Json)} (h : IsMembers room w ms rest) (hspace : ∀ b ∈ space, isSpace b = Bool.true) :
    IsValue (room + 1) (0x7B :: (space ++ w)) (.object ms) rest where
  again {tail} htail room' fuel hroom hfuel := by
    obtain ⟨fuel, rfl⟩ := Nat.exists_eq_add_one.2 (Nat.lt_of_lt_of_le (by simp) hfuel)
    obtain ⟨room', rfl⟩ := Nat.exists_eq_add_one.2 (Nat.zero_lt_of_lt hroom)
    obtain ⟨bs, hw⟩ := h.front
    have hskip : skipSpace (space ++ w ++ tail) = 0x22 :: (bs ++ tail) := by
      rw [List.append_assoc, hw]
      exact skipSpace_append hspace rfl _
    have hmembers := h.again htail (Nat.le_of_succ_le_succ hroom) (n := fuel)
      (by simp only [List.length_cons, List.length_append] at hfuel; omega)
    rw [hw, List.cons_append] at hmembers
    rw [List.cons_append, value?_object hskip, hmembers, Option.map_some]
  crosses depth := crosses_bracketed rfl hspace (h.crosses depth)
  front := ⟨_, _, rfl, by decide⟩
  back := by
    obtain ⟨bs, rfl⟩ := h.back
    exact ⟨0x7B :: (space ++ bs), 0x7D, by simp, by decide⟩

end IsValue

/-! ## Items -/

section Items

variable {room : Nat} {w w' space gap rest : Bytes} {j : Json} {items : List Json}

theorem IsItems.last (hv : IsValue room w j (space ++ 0x5D :: rest)) (hspace : ∀ b ∈ space, isSpace b = true) :
    IsItems room (w ++ (space ++ [0x5D])) [j] rest where
  again {tail} htail room' fuel hroom hfuel := by
    simp only [List.length_append, List.length_singleton] at hfuel
    obtain ⟨fuel, rfl⟩ := Nat.exists_eq_add_one.2 (Nat.lt_of_lt_of_le (by omega) hfuel)
    have hread := hv.again (prefix_behind ((List.prefix_cons_inj _).2 htail) space) hroom (n := fuel) (by omega)
    rw [List.append_assoc, List.append_assoc, List.singleton_append]
    simp [items?, hread, skipSpace_append hspace (b := 0x5D) rfl]
  crosses depth := (hv.crosses _).append ((Crosses.space hspace _).append (.closing rfl depth))
  front := by
    obtain ⟨b, bs, rfl, hb⟩ := hv.front
    exact ⟨b, _, rfl, hb⟩
  back := ⟨w ++ space, by simp⟩

theorem IsItems.cons (hs : IsItems room w' items rest)
    (hv : IsValue room w j (space ++ 0x2C :: (gap ++ (w' ++ rest)))) (hspace : ∀ b ∈ space, isSpace b = true)
    (hgap : ∀ b ∈ gap, isSpace b = true) : IsItems room (w ++ (space ++ 0x2C :: (gap ++ w'))) (j :: items) rest where
  again {tail} htail room' fuel hroom hfuel := by
    simp only [List.length_append, List.length_cons] at hfuel
    obtain ⟨fuel, rfl⟩ := Nat.exists_eq_add_one.2 (Nat.lt_of_lt_of_le (by omega) hfuel)
    have hread := hv.again (prefix_behind ((List.prefix_cons_inj _).2 (prefix_behind (prefix_behind htail w') gap)) space)
      hroom (n := fuel) (by omega)
    have hothers := hs.again htail hroom (n := fuel) (by omega)
    obtain ⟨b, bs, rfl, hb⟩ := hs.front
    have hbehind : skipSpace (gap ++ (b :: bs ++ tail)) = b :: bs ++ tail :=
      skipSpace_append hgap (isSpace_of_isFront hb) _
    have htext : w ++ (space ++ 0x2C :: (gap ++ b :: bs)) ++ tail = w ++ (space ++ 0x2C :: (gap ++ (b :: bs ++ tail))) := by
      simp
    rw [htext, items?, hread]
    simp only [Option.bind_eq_bind, Option.bind_some, skipSpace_append hspace (b := 0x2C) rfl, hbehind, hothers]
    rfl
  crosses depth := by
    have hall := (hv.crosses (depth + 1)).append ((Crosses.space hspace _).append ((Crosses.comma depth).append
      ((Crosses.space hgap _).append (hs.crosses depth))))
    simpa using hall
  front := by
    obtain ⟨b, bs, rfl, hb⟩ := hv.front
    exact ⟨b, _, rfl, hb⟩
  back := by
    obtain ⟨bs, rfl⟩ := hs.back
    exact ⟨w ++ (space ++ 0x2C :: (gap ++ bs)), by simp⟩

end Items

/-! ## Members -/

section Members

variable {room : Nat} {body w w' space space' gap gap' rest : Bytes} {name : String} {j : Json} {ms : List (String × Json)}

/-- A member of an object: its name, and behind a colon what its value begins. -/
def entry (body space space' w : Bytes) : Bytes := 0x22 :: (body ++ 0x22 :: (space ++ 0x3A :: (space' ++ w)))

/-- The parts of a member that stand in front of its value. -/
structure IsLead (body : Bytes) (name : String) (space space' : Bytes) : Prop where
  quoted : Quoted body
  read : ∀ tail, string? (body ++ 0x22 :: tail) = some (name, tail)
  before : ∀ b ∈ space, isSpace b = true
  behind : ∀ b ∈ space', isSpace b = true

theorem entry_append (body space space' w tail : Bytes) :
    entry body space space' w ++ tail = entry body space space' (w ++ tail) := by
  simp [entry]

theorem IsLead.crosses (h : IsLead body name space space') {depth depth' : Nat} (hw : Crosses depth w depth') :
    Crosses depth (entry body space space' w) depth' := by
  have hall := (Crosses.quoted h.quoted depth).append ((Crosses.space h.before _).append
    ((Crosses.passing (b := 0x3A) rfl _).append ((Crosses.space h.behind _).append hw)))
  simpa [entry] using hall

theorem IsLead.nameOf_eq (h : IsLead body name space space') : nameOf (0x22 :: (body ++ [0x22])) = name := by
  rw [nameOf, (IsValue.string h.quoted h.read 0 []).parse?_eq (Nat.zero_le _)]

/-- The last member is read with the closing brace behind its value. -/
theorem IsLead.members?_last (h : IsLead body name space space') (hgap : ∀ b ∈ gap, isSpace b = true) {b : UInt8} {bs tail : Bytes}
    (hb : isFront b = true) {fuel : Nat} (hread : value? room fuel (b :: bs) = some (j, gap ++ 0x7D :: tail)) :
    members? room (fuel + 1) (entry body space space' (b :: bs)) = some ([(name, j)], tail) := by
  rw [entry, members?, h.read]
  simp [skipSpace_append h.before (b := 0x3A) rfl, skipSpace_append h.behind (isSpace_of_isFront hb), hread,
    skipSpace_append hgap (b := 0x7D) rfl]

/-- A member with others behind it is read before them. -/
theorem IsLead.members?_cons (h : IsLead body name space space') (hgap : ∀ b ∈ gap, isSpace b = true) {b : UInt8}
    {bs more tail : Bytes} (hb : isFront b = true) {fuel : Nat}
    (hread : value? room fuel (b :: bs) = some (j, gap ++ 0x2C :: more))
    (hothers : members? room fuel (skipSpace more) = some (ms, tail)) :
    members? room (fuel + 1) (entry body space space' (b :: bs)) = some ((name, j) :: ms, tail) := by
  rw [entry, members?, h.read]
  simp [skipSpace_append h.before (b := 0x3A) rfl, skipSpace_append h.behind (isSpace_of_isFront hb), hread,
    skipSpace_append hgap (b := 0x2C) rfl, hothers]

/-- The slice of a member is its name and the text of its value. -/
theorem slicesFrom_entry (h : IsLead body name space space') (hv : IsValue room w j rest)
    (hgap : ∀ b ∈ gap, isSpace b = true) {m : UInt8} (hm : (m == 0x2C || isClosing m) = true) (tail : Bytes) (fuel : Nat) :
    slicesFrom (fuel + 1) (entry body space space' (w ++ (gap ++ m :: tail))) = (name, w) :: slicesFrom fuel (m :: tail) := by
  obtain ⟨b, bs, hw, hb⟩ := hv.front
  have hlead : ((space ++ 0x3A :: (space' ++ (w ++ (gap ++ m :: tail)))).dropWhile fun b => isSpace b || b == 0x3A) =
      w ++ (gap ++ m :: tail) := by
    have hbefore : ∀ b ∈ space, (isSpace b || b == 0x3A) = true := fun b hb => by simp [h.before b hb]
    have hbehind : ∀ b ∈ space', (isSpace b || b == 0x3A) = true := fun b hb => by simp [h.behind b hb]
    have hstop : (isSpace b || b == 0x3A) = false := by
      simp only [isFront, Bool.and_eq_true, Bool.not_eq_true', bne_iff_ne] at hb
      simp [hb.1.1.1, hb.1.2]
    rw [List.dropWhile_append_of_pos hbefore, List.dropWhile_cons_of_pos (by rfl), List.dropWhile_append_of_pos hbehind, hw,
      List.cons_append, List.dropWhile_cons_of_neg (by simp [hstop])]
  have hstop : splitValue 0 false (m :: tail) = ([], m :: tail) := by
    rw [splitValue, if_pos (by simpa using hm)]
  have hvalue : splitValue 0 false (w ++ (gap ++ m :: tail)) = (w ++ gap, m :: tail) := by
    rw [hv.crosses 0, Crosses.space hgap 0, hstop]
    simp
  have hfront : ((entry body space space' (w ++ (gap ++ m :: tail))).dropWhile fun b => isSpace b || b == 0x2C) =
      entry body space space' (w ++ (gap ++ m :: tail)) := rfl
  rw [slicesFrom, hfront, entry]
  simp only [h.quoted.string, hlead, hvalue, h.nameOf_eq, hv.trimEnd_eq hgap]

theorem slicesFrom_append (hgap : ∀ b ∈ gap, (isSpace b || b == 0x2C) = true) (x : Bytes) (fuel : Nat) :
    slicesFrom fuel (gap ++ x) = slicesFrom fuel x := by
  cases fuel with
  | zero => rfl
  | succ fuel => rw [slicesFrom, slicesFrom, List.dropWhile_append_of_pos hgap]

theorem slicesFrom_closing (tail : Bytes) (fuel : Nat) : slicesFrom fuel (0x7D :: tail) = [] := by
  cases fuel <;> rfl

theorem IsMembers.last (h : IsLead body name space space') (hv : IsValue room w j (gap ++ 0x7D :: rest))
    (hgap : ∀ b ∈ gap, isSpace b = true) :
    IsMembers room (entry body space space' (w ++ (gap ++ [0x7D]))) [(name, j)] rest where
  again {tail} htail room' fuel hroom hfuel := by
    simp only [entry, List.length_append, List.length_cons] at hfuel
    obtain ⟨fuel, rfl⟩ := Nat.exists_eq_add_one.2 (Nat.lt_of_lt_of_le (by omega) hfuel)
    have hread := hv.again (prefix_behind ((List.prefix_cons_inj _).2 htail) gap) hroom (n := fuel) (by omega)
    obtain ⟨b, bs, rfl, hb⟩ := hv.front
    have htext : b :: bs ++ (gap ++ [0x7D]) ++ tail = b :: (bs ++ (gap ++ 0x7D :: tail)) := by simp
    rw [List.cons_append] at hread
    rw [entry_append, htext]
    exact h.members?_last hgap hb hread
  crosses depth := h.crosses ((hv.crosses _).append ((Crosses.space hgap _).append (.closing rfl depth)))
  front := ⟨_, rfl⟩
  back := ⟨entry body space space' (w ++ gap), by simp [entry]⟩
  slices := by
    refine ⟨[(name, w)], fun tail fuel hfuel => ?_, .cons ⟨rfl, hv.parse?_eq, ?_⟩ .nil⟩
    · obtain ⟨fuel, rfl⟩ := Nat.exists_eq_add_one.2 (Nat.lt_of_lt_of_le (by simp [entry]) hfuel)
      have htext : w ++ (gap ++ [0x7D]) ++ tail = w ++ (gap ++ 0x7D :: tail) := by simp
      rw [entry_append, htext, slicesFrom_entry h hv hgap (by rfl), slicesFrom_closing]
    · exact ⟨0x22 :: (body ++ 0x22 :: (space ++ 0x3A :: space')), gap ++ [0x7D], by simp [entry]⟩

theorem IsMembers.cons (hs : IsMembers room w' ms rest) (h : IsLead body name space space')
    (hv : IsValue room w j (gap ++ 0x2C :: (gap' ++ (w' ++ rest)))) (hgap : ∀ b ∈ gap, isSpace b = true)
    (hgap' : ∀ b ∈ gap', isSpace b = true) :
    IsMembers room (entry body space space' (w ++ (gap ++ 0x2C :: (gap' ++ w')))) ((name, j) :: ms) rest where
  again {tail} htail room' fuel hroom hfuel := by
    simp only [entry, List.length_append, List.length_cons] at hfuel
    obtain ⟨fuel, rfl⟩ := Nat.exists_eq_add_one.2 (Nat.lt_of_lt_of_le (by omega) hfuel)
    have hread := hv.again (prefix_behind ((List.prefix_cons_inj _).2 (prefix_behind (prefix_behind htail w') gap')) gap)
      hroom (n := fuel) (by omega)
    have hothers := hs.again htail hroom (n := fuel) (by omega)
    obtain ⟨b, bs, rfl, hb⟩ := hv.front
    obtain ⟨more, rfl⟩ := hs.front
    have hbehind : skipSpace (gap' ++ (0x22 :: more ++ tail)) = 0x22 :: more ++ tail := skipSpace_append hgap' rfl _
    have htext : b :: bs ++ (gap ++ 0x2C :: (gap' ++ 0x22 :: more)) ++ tail =
        b :: (bs ++ (gap ++ 0x2C :: (gap' ++ (0x22 :: more ++ tail)))) := by simp
    rw [List.cons_append] at hread
    rw [← hbehind] at hothers
    rw [entry_append, htext]
    exact h.members?_cons hgap hb hread hothers
  crosses depth := by
    refine h.crosses ?_
    have hall := (hv.crosses (depth + 1)).append ((Crosses.space hgap _).append ((Crosses.comma depth).append
      ((Crosses.space hgap' _).append (hs.crosses depth))))
    simpa using hall
  front := ⟨_, rfl⟩
  back := by
    obtain ⟨bs, rfl⟩ := hs.back
    exact ⟨entry body space space' (w ++ (gap ++ 0x2C :: (gap' ++ bs))), by simp [entry]⟩
  slices := by
    obtain ⟨ss, hss, hall⟩ := hs.slices
    refine ⟨(name, w) :: ss, fun tail fuel hfuel => ?_, .cons ⟨rfl, hv.parse?_eq, ?_⟩ ?_⟩
    · simp only [entry, List.length_append, List.length_cons] at hfuel
      obtain ⟨fuel, rfl⟩ := Nat.exists_eq_add_one.2 (Nat.lt_of_lt_of_le (by omega) hfuel)
      have hcomma : ∀ b ∈ 0x2C :: gap', (isSpace b || b == 0x2C) = true :=
        List.forall_mem_cons.2 ⟨rfl, fun b hb => by simp [hgap' b hb]⟩
      have htext : w ++ (gap ++ 0x2C :: (gap' ++ w')) ++ tail = w ++ (gap ++ 0x2C :: (gap' ++ (w' ++ tail))) := by simp
      rw [entry_append, htext, slicesFrom_entry h hv hgap (by rfl), ← List.cons_append, slicesFrom_append hcomma,
        hss tail fuel (by omega)]
    · exact ⟨0x22 :: (body ++ 0x22 :: (space ++ 0x3A :: space')), gap ++ 0x2C :: (gap' ++ w'), by simp [entry]⟩
    · refine hall.imp fun m s hms => ⟨hms.1, hms.2.1, hms.2.2.trans ?_⟩
      exact ⟨0x22 :: (body ++ 0x22 :: (space ++ 0x3A :: (space' ++ (w ++ (gap ++ 0x2C :: gap'))))), [], by simp [entry]⟩

end Members

/-! ## What is read is the text of a value -/

/-- White space in front of a text that does not begin with any. -/
theorem exists_space_front {bytes w rest : Bytes} (h : skipSpace bytes = w ++ rest) (hw : ∃ b bs, w = b :: bs ∧ isFront b = true) :
    ∃ space, (∀ c ∈ space, isSpace c = true) ∧ bytes = space ++ (w ++ rest) := by
  obtain ⟨b, bs, rfl, -⟩ := hw
  obtain ⟨space, hspace, hbytes, -⟩ := exists_space h
  exact ⟨space, hspace, hbytes⟩

mutual

theorem exists_value {room fuel : Nat} {bytes rest : Bytes} {j : Json} (h : value? room fuel bytes = some (j, rest)) :
    ∃ w, bytes = w ++ rest ∧ IsValue room w j rest := by
  match fuel with
  | 0 => cases h
  | fuel + 1 =>
    rw [value?.eq_def] at h
    dsimp only at h
    split at h
    · obtain ⟨rfl, rfl⟩ := Prod.mk.inj (Option.some.inj h)
      exact ⟨_, rfl, .null room _⟩
    · obtain ⟨rfl, rfl⟩ := Prod.mk.inj (Option.some.inj h)
      exact ⟨_, rfl, .true room _⟩
    · obtain ⟨rfl, rfl⟩ := Prod.mk.inj (Option.some.inj h)
      exact ⟨_, rfl, .false room _⟩
    · obtain ⟨⟨s, left⟩, hs, heq⟩ := Option.map_eq_some_iff.1 h
      obtain ⟨rfl, rfl⟩ := Prod.mk.inj heq
      obtain ⟨body, rfl, hquoted, hread⟩ := exists_string hs
      exact ⟨0x22 :: (body ++ [0x22]), by simp, .string hquoted hread room _⟩
    · rename_i inner
      -- an array keeps its text, so its reading is one of the text that was cut off in front of the rest
      split at h
      · cases h
      · rename_i room
        split at h
        · rename_i left hskip
          obtain ⟨rfl, rfl⟩ := Prod.mk.inj (Option.some.inj h)
          obtain ⟨space, hspace, rfl, -⟩ := exists_space hskip
          have htext : 0x5B :: (space ++ 0x5D :: left) = 0x5B :: (space ++ [0x5D]) ++ left := by simp
          refine ⟨_, htext, ?_⟩
          rw [htext, IsValue.sourceBetween_append]
          exact .emptyArray hspace room _
        · obtain ⟨⟨items, left⟩, hitems, heq⟩ := Option.map_eq_some_iff.1 h
          obtain ⟨rfl, rfl⟩ := Prod.mk.inj heq
          obtain ⟨w, hw, hread⟩ := exists_items hitems
          obtain ⟨space, hspace, rfl⟩ := exists_space_front hw hread.front
          have htext : 0x5B :: (space ++ (w ++ left)) = 0x5B :: (space ++ w) ++ left := by simp
          refine ⟨_, htext, ?_⟩
          rw [htext, IsValue.sourceBetween_append]
          exact .array hread hspace
    · split at h
      · cases h
      · rename_i room
        split at h
        · rename_i left hskip
          obtain ⟨rfl, rfl⟩ := Prod.mk.inj (Option.some.inj h)
          obtain ⟨space, hspace, rfl, -⟩ := exists_space hskip
          exact ⟨0x7B :: (space ++ [0x7D]), by simp, .emptyObject hspace room _⟩
        · obtain ⟨⟨ms, left⟩, hms, heq⟩ := Option.map_eq_some_iff.1 h
          obtain ⟨rfl, rfl⟩ := Prod.mk.inj heq
          obtain ⟨w, hw, hread⟩ := exists_members hms
          obtain ⟨bs, hfront⟩ := hread.front
          obtain ⟨space, hspace, rfl⟩ := exists_space_front hw ⟨_, bs, hfront, by decide⟩
          exact ⟨0x7B :: (space ++ w), by simp, .object hread hspace⟩
    · obtain ⟨⟨text, left⟩, hnumber, heq⟩ := Option.map_eq_some_iff.1 h
      obtain ⟨rfl, rfl⟩ := Prod.mk.inj heq
      exact IsValue.exists_number hnumber room

theorem exists_items {room fuel : Nat} {bytes rest : Bytes} {items : List Json}
    (h : items? room fuel bytes = some (items, rest)) : ∃ w, bytes = w ++ rest ∧ IsItems room w items rest := by
  match fuel with
  | 0 => cases h
  | fuel + 1 =>
    simp only [items?, Option.bind_eq_bind, Option.bind_eq_some_iff] at h
    obtain ⟨⟨item, left⟩, hitem, h⟩ := h
    obtain ⟨w, rfl, hread⟩ := exists_value hitem
    dsimp only at h
    split at h
    · rename_i more hcomma
      obtain ⟨⟨others, behind⟩, hothers, heq⟩ := Option.bind_eq_some_iff.1 h
      obtain ⟨rfl, rfl⟩ := Prod.mk.inj (Option.some.inj heq)
      obtain ⟨w', hw', hread'⟩ := exists_items hothers
      obtain ⟨space, hspace, rfl, -⟩ := exists_space hcomma
      obtain ⟨gap, hgap, rfl⟩ := exists_space_front hw' hread'.front
      exact ⟨w ++ (space ++ 0x2C :: (gap ++ w')), by simp, hread'.cons hread hspace hgap⟩
    · rename_i more hclosing
      obtain ⟨rfl, rfl⟩ := Prod.mk.inj (Option.some.inj h)
      obtain ⟨space, hspace, rfl, -⟩ := exists_space hclosing
      exact ⟨w ++ (space ++ [0x5D]), by simp, .last hread hspace⟩
    · cases h

theorem exists_members {room fuel : Nat} {bytes rest : Bytes} {ms : List (String × Json)}
    (h : members? room fuel bytes = some (ms, rest)) : ∃ w, bytes = w ++ rest ∧ IsMembers room w ms rest := by
  match fuel with
  | 0 => cases h
  | fuel + 1 =>
    rw [members?.eq_def] at h
    dsimp only at h
    split at h
    · simp only [Option.bind_eq_bind, Option.bind_eq_some_iff] at h
      obtain ⟨⟨name, left⟩, hname, h⟩ := h
      obtain ⟨body, rfl, hquoted, hread⟩ := exists_string hname
      dsimp only at h
      split at h
      · rename_i more hcolon
        obtain ⟨⟨item, behind⟩, hitem, hbehind⟩ := Option.bind_eq_some_iff.1 h
        obtain ⟨w, hw, hvalue⟩ := exists_value hitem
        obtain ⟨space, hspace, rfl, -⟩ := exists_space hcolon
        obtain ⟨space', hspace', rfl⟩ := exists_space_front hw hvalue.front
        have hlead : IsLead body name space space' := ⟨hquoted, hread, hspace, hspace'⟩
        dsimp only at hbehind
        split at hbehind
        · rename_i more hcomma
          obtain ⟨⟨others, last⟩, hothers, heq⟩ := Option.bind_eq_some_iff.1 hbehind
          obtain ⟨rfl, rfl⟩ := Prod.mk.inj (Option.some.inj heq)
          obtain ⟨w', hw', hread'⟩ := exists_members hothers
          obtain ⟨bs, hfront⟩ := hread'.front
          obtain ⟨gap, hgap, rfl, -⟩ := exists_space hcomma
          obtain ⟨gap', hgap', rfl⟩ := exists_space_front hw' ⟨_, bs, hfront, by decide⟩
          exact ⟨entry body space space' (w ++ (gap ++ 0x2C :: (gap' ++ w'))), by simp [entry],
            hread'.cons hlead hvalue hgap hgap'⟩
        · rename_i more hclosing
          obtain ⟨rfl, rfl⟩ := Prod.mk.inj (Option.some.inj hbehind)
          obtain ⟨gap, hgap, rfl, -⟩ := exists_space hclosing
          exact ⟨entry body space space' (w ++ (gap ++ [0x7D])), by simp [entry], .last hlead hvalue hgap⟩
        · cases hbehind
      · cases h
    · cases h

end

/-! ## Slices -/

/-- An object is read from its members between braces. -/
theorem exists_braces {room fuel : Nat} {bytes rest : Bytes} {ms : List (String × Json)}
    (h : value? room fuel bytes = some (.object ms, rest)) : ∃ space w, (∀ b ∈ space, isSpace b = true) ∧
      bytes = 0x7B :: (space ++ (w ++ rest)) ∧ (ms = [] ∧ w = [0x7D] ∨ ∃ room', room' ≤ room ∧ IsMembers room' w ms rest) := by
  match fuel with
  | 0 => cases h
  | fuel + 1 =>
    rw [value?.eq_def] at h
    dsimp only at h
    split at h
    · cases h
    · cases h
    · cases h
    · obtain ⟨_, -, heq⟩ := Option.map_eq_some_iff.1 h
      cases heq
    · split at h
      · cases h
      · split at h
        · cases h
        · obtain ⟨_, -, heq⟩ := Option.map_eq_some_iff.1 h
          cases heq
    · split at h
      · cases h
      · rename_i room
        split at h
        · rename_i left hskip
          obtain ⟨heq, rfl⟩ := Prod.mk.inj (Option.some.inj h)
          obtain ⟨space, hspace, rfl, -⟩ := exists_space hskip
          exact ⟨space, [0x7D], hspace, by simp, .inl ⟨(Json.object.inj heq).symm, rfl⟩⟩
        · obtain ⟨⟨ms', left⟩, hms, heq⟩ := Option.map_eq_some_iff.1 h
          cases heq
          obtain ⟨w, hw, hread⟩ := exists_members hms
          obtain ⟨bs, hfront⟩ := hread.front
          obtain ⟨space, hspace, rfl⟩ := exists_space_front hw ⟨_, bs, hfront, by decide⟩
          exact ⟨space, w, hspace, rfl, .inr ⟨room, Nat.le_succ room, hread⟩⟩
    · obtain ⟨_, -, heq⟩ := Option.map_eq_some_iff.1 h
      cases heq

theorem exists_parseFront? {document : Bytes} {j : Json} (h : parse? document = some j) :
    ∃ rest, parseFront? document = some (j, rest) := by
  obtain ⟨⟨j', rest⟩, hfront, hrest⟩ := Option.bind_eq_some_iff.1 h
  dsimp only at hrest
  split at hrest
  · obtain rfl := Option.some.inj hrest
    exact ⟨rest, hfront⟩
  · cases hrest

/-- The slices of a document whose first value is an object are its members: each name with a text inside the document
that its value is read from. -/
theorem slices_of_object {document rest : Bytes} {ms : List (String × Json)}
    (h : parseFront? document = some (.object ms, rest)) :
    List.Forall₂ (fun m s => s.1 = m.1 ∧ parse? s.2 = some m.2 ∧ s.2 <:+: document) ms (slices document) := by
  rw [parseFront?] at h
  obtain ⟨space, w, hspace, hbytes, hmembers⟩ := exists_braces h
  obtain ⟨lead, -, hdocument, -⟩ := exists_space hbytes
  have hskip : ∀ b ∈ space, (isSpace b || b == 0x2C) = true := fun b hb => by simp [hspace b hb]
  have hslices : slices document = slicesFrom (space ++ (w ++ rest)).length (space ++ (w ++ rest)) := by
    simp only [slices, hbytes]
  rw [hslices, slicesFrom_append hskip]
  rcases hmembers with ⟨rfl, rfl⟩ | ⟨room, hroom, hread⟩
  · rw [List.singleton_append, slicesFrom_closing]
    exact .nil
  · obtain ⟨ss, hss, hall⟩ := hread.slices
    rw [hss rest _ (by simp only [List.length_append]; omega)]
    refine hall.imp fun m s hms => ⟨hms.1, hms.2.1 hroom, hms.2.2.trans ?_⟩
    exact ⟨lead ++ 0x7B :: space, rest, by rw [hdocument]; simp⟩

theorem exists_object {room fuel : Nat} {x rest : Bytes} {j : Json} (h : value? room fuel (0x7B :: x) = some (j, rest)) :
    ∃ ms, j = .object ms := by
  match room, fuel with
  | _, 0 => cases h
  | 0, fuel + 1 =>
    rw [value?] at h
    cases h
  | room + 1, fuel + 1 =>
    rw [value?] at h
    split at h
    · exact ⟨[], (Prod.mk.inj (Option.some.inj h)).1.symm⟩
    · obtain ⟨⟨ms, _⟩, -, heq⟩ := Option.map_eq_some_iff.1 h
      exact ⟨ms, (Prod.mk.inj heq).1.symm⟩

/-- Only objects have slices. -/
theorem slices_of_not_object {document rest : Bytes} {j : Json} (h : parseFront? document = some (j, rest))
    (hj : ∀ ms, j ≠ .object ms) : slices document = [] := by
  unfold slices
  split
  · rename_i inner hskip
    rw [parseFront?, hskip] at h
    obtain ⟨ms, hms⟩ := exists_object h
    exact absurd hms (hj ms)
  · rfl

/-- The slices of a name are the texts that its values are read from. -/
theorem slicesOf_of_object {document rest : Bytes} {ms : List (String × Json)}
    (h : parseFront? document = some (.object ms, rest)) (name : String) :
    List.Forall₂ (fun j w => parse? w = some j ∧ w <:+: document) (valuesOf ms name) (slicesOf document name) := by
  have hnamed : List.Forall₂ (fun m s => s.1 = m.1 ∧ parse? s.2 = some m.2 ∧ s.2 <:+: document)
      (ms.filter fun m => sameName m.1 name) ((slices document).filter fun s => sameName s.1 name) :=
    List.rel_filter (fun m s hms => iff_of_eq (congrArg (sameName · name = true) hms.1.symm)) (slices_of_object h)
  rw [valuesOf, slicesOf, List.forall₂_map_left_iff, List.forall₂_map_right_iff]
  exact hnamed.imp fun m s hms => hms.2

theorem find?_of_forall₂ {α β : Type} {R : α → β → Prop} {p : α → Bool} {q : β → Bool} (hpq : ∀ a b, R a b → p a = q b)
    {l : List α} {l' : List β} (h : List.Forall₂ R l l') :
    l.find? p = none ∧ l'.find? q = none ∨ ∃ a b, l.find? p = some a ∧ l'.find? q = some b ∧ R a b := by
  induction h with
  | nil => exact .inl ⟨rfl, rfl⟩
  | @cons a b l l' hab hrest ih =>
    rw [List.find?_cons, List.find?_cons, ← hpq a b hab]
    cases p a with
    | true => exact .inr ⟨a, b, rfl, rfl, hab⟩
    | false => exact ih

/-- The value that a name has in an object: the one that was written last. -/
def lastValue? (members : List (String × Json)) (name : String) : Option Json := (valuesOf members name).getLast?

theorem lastValue?_eq (members : List (String × Json)) (name : String) :
    lastValue? members name = (members.reverse.find? fun m => sameName m.1 name).map (·.2) := by
  rw [lastValue?, valuesOf, List.getLast?_map, List.getLast?_eq_head?_reverse, ← List.filter_reverse, List.head?_filter]

/-- A member that is absent has no slice, and the slice of one that is there is the text of its value. -/
theorem slice?_of_object {document rest : Bytes} {ms : List (String × Json)}
    (h : parseFront? document = some (.object ms, rest)) (name : String) :
    lastValue? ms name = none ∧ slice? document name = none ∨
      ∃ j w, lastValue? ms name = some j ∧ slice? document name = some w ∧ parse? w = some j ∧ w <:+: document := by
  rw [lastValue?_eq, slice?]
  have hall := List.forall₂_reverse_iff.2 (slices_of_object h)
  rcases find?_of_forall₂ (p := fun m => sameName m.1 name) (q := fun s => sameName s.1 name)
      (fun m s hms => by rw [hms.1]) hall with ⟨hm, hs⟩ | ⟨m, s, hm, hs, hms⟩
  · exact .inl ⟨by rw [hm]; rfl, by rw [hs]; rfl⟩
  · exact .inr ⟨m.2, s.2, by rw [hm]; rfl, by rw [hs]; rfl, hms.2.1, hms.2.2⟩

end Blockwright.Json
