import Mathlib.Data.List.TakeWhile
import Blockwright.Json.Slice
/-!
# What the scanners of JSON take from a document

A number or a string is read from the bytes in front and the rest is left. What was taken is read in the
same way when the document ends earlier, at any place behind it.
-/

namespace Blockwright.Json

/-! ## Scanning -/

/-- A scanner takes bytes of a kind from the front, and takes the same bytes of a text that ends earlier. -/
def Takes {α : Type} (p : UInt8 → Bool) (scan : Bytes → Option (α × Bytes)) : Prop :=
  ∀ {bytes : Bytes} {x : α} {rest : Bytes}, scan bytes = some (x, rest) → ∃ w, bytes = w ++ rest ∧ (∀ b ∈ w, p b = true) ∧
    ∀ tail, tail <+: rest → scan (w ++ tail) = some (x, tail)

/-- The bytes of numbers. -/
def isNumberByte (b : UInt8) : Bool := isDigit b || b == 0x2B || b == 0x2D || b == 0x2E || b == 0x45 || b == 0x65

theorem isNumberByte_of_isDigit {b : UInt8} (h : isDigit b = true) : isNumberByte b = true := by
  simp [isNumberByte, h]

theorem head?_of_prefix {tail rest : Bytes} (h : tail <+: rest) : tail = [] ∨ tail.head? = rest.head? := by
  obtain ⟨more, rfl⟩ := h
  cases tail with
  | nil => exact .inl rfl
  | cons b bs => exact .inr rfl

theorem takeWhile_of_prefix {p : UInt8 → Bool} {bytes tail : Bytes} (h : tail <+: bytes.dropWhile p) :
    (bytes.takeWhile p ++ tail).takeWhile p = bytes.takeWhile p ∧ (bytes.takeWhile p ++ tail).dropWhile p = tail := by
  have hall : ∀ b ∈ bytes.takeWhile p, p b = true := fun b hb => List.mem_takeWhile_imp hb
  have hstop : ∀ b, tail.head? = some b → p b = false := by
    intro b hb
    rcases head?_of_prefix h with rfl | hhead
    · cases hb
    · have hdrop := List.head?_dropWhile_not p bytes
      rw [← hhead, hb] at hdrop
      exact hdrop
  rw [List.takeWhile_append_of_pos hall, List.dropWhile_append_of_pos hall]
  cases tail with
  | nil => exact ⟨List.append_nil _, rfl⟩
  | cons b bs =>
    have hb := hstop b rfl
    rw [List.takeWhile_cons_of_neg (by simp [hb]), List.dropWhile_cons_of_neg (by simp [hb]), List.append_nil]
    exact ⟨rfl, rfl⟩

theorem takes_digits : Takes isDigit digits? := by
  intro bytes ds rest h
  rw [digits?] at h
  split at h
  · cases h
  · rename_i hne
    obtain ⟨rfl, rfl⟩ := Prod.mk.inj (Option.some.inj h)
    refine ⟨bytes.takeWhile isDigit, List.takeWhile_append_dropWhile.symm, fun b hb => List.mem_takeWhile_imp hb, ?_⟩
    intro tail htail
    obtain ⟨htake, hdrop⟩ := takeWhile_of_prefix htail
    rw [digits?, htake, hdrop]
    split
    · rename_i hnil
      exact absurd hnil hne
    · rfl

/-! ## Numbers -/

theorem takes_whole : Takes isDigit whole? := by
  intro bytes ds rest h
  rw [whole?.eq_def] at h
  split at h
  · obtain ⟨rfl, rfl⟩ := Prod.mk.inj (Option.some.inj h)
    exact ⟨[0x30], rfl, List.forall_mem_singleton.2 (by decide), fun tail _ => rfl⟩
  · rename_i hzero
    obtain ⟨w, rfl, hdigits, hagain⟩ := takes_digits h
    refine ⟨w, rfl, hdigits, fun tail htail => ?_⟩
    rw [whole?.eq_def]
    split
    · rename_i more hmore
      cases w with
      | nil =>
        have hnone := hagain [] List.nil_prefix
        cases hnone
      | cons b bs =>
        rw [List.cons_append] at hmore
        exact absurd (by rw [List.cons_append, (List.cons.inj hmore).1]) (hzero (bs ++ rest))
    · exact hagain tail htail

theorem takes_fraction : Takes isNumberByte fraction? := by
  intro bytes frac rest h
  rw [fraction?.eq_def] at h
  split at h
  · obtain ⟨⟨ds, left⟩, hds, heq⟩ := Option.map_eq_some_iff.1 h
    obtain ⟨rfl, rfl⟩ := Prod.mk.inj heq
    obtain ⟨w, rfl, hdigits, hagain⟩ := takes_digits hds
    refine ⟨0x2E :: w, rfl, List.forall_mem_cons.2 ⟨by decide, fun b hb => isNumberByte_of_isDigit (hdigits b hb)⟩, ?_⟩
    intro tail htail
    rw [List.cons_append, fraction?, hagain tail htail]
    rfl
  · rename_i hpoint
    obtain ⟨rfl, rfl⟩ := Prod.mk.inj (Option.some.inj h)
    refine ⟨[], rfl, by simp, fun tail htail => ?_⟩
    rw [List.nil_append, fraction?.eq_def]
    split
    · rename_i more
      obtain ⟨behind, rfl⟩ := htail
      exact absurd rfl (hpoint (more ++ behind))
    · rfl

theorem exists_digit {bytes ds rest : Bytes} (h : digits? bytes = some (ds, rest)) :
    ∃ b bs, bytes = b :: bs ∧ isDigit b = true := by
  rw [digits?] at h
  cases bytes with
  | nil => cases h
  | cons b bs =>
    refine ⟨b, bs, rfl, Bool.of_not_eq_false fun hb => ?_⟩
    rw [List.takeWhile_cons_of_neg (by simp [hb])] at h
    cases h

section Exponents

variable {e : UInt8}

theorem exponent?_of_not_mark (he : (e == 0x65 || e == 0x45) = false) (rest : Bytes) :
    exponent? (e :: rest) = some ([], e :: rest) := by
  rw [exponent?.eq_def]
  exact if_neg (by simp [he])

theorem exponent?_plus (he : (e == 0x65 || e == 0x45) = true) (rest : Bytes) :
    exponent? (e :: 0x2B :: rest) = (digits? rest).map fun (ds, rest) => (e :: 0x2B :: ds, rest) := by
  rw [exponent?.eq_def]
  exact if_pos he

theorem exponent?_minus (he : (e == 0x65 || e == 0x45) = true) (rest : Bytes) :
    exponent? (e :: 0x2D :: rest) = (digits? rest).map fun (ds, rest) => (e :: 0x2D :: ds, rest) := by
  rw [exponent?.eq_def]
  exact if_pos he

theorem exponent?_of_isDigit (he : (e == 0x65 || e == 0x45) = true) {b : UInt8} (hb : isDigit b = true) (bs : Bytes) :
    exponent? (e :: b :: bs) = (digits? (b :: bs)).map fun (ds, rest) => (e :: ds, rest) := by
  rw [exponent?.eq_def]
  dsimp only
  rw [if_pos he]
  split
  · rename_i heq
    rw [(List.cons.inj heq).1] at hb
    cases hb
  · rename_i heq
    rw [(List.cons.inj heq).1] at hb
    cases hb
  · rfl

theorem takes_exponent : Takes isNumberByte exponent? := by
  intro bytes ex rest h
  cases bytes with
  | nil =>
    obtain ⟨rfl, rfl⟩ := Prod.mk.inj (Option.some.inj h)
    refine ⟨[], rfl, by simp, fun tail htail => ?_⟩
    rw [List.prefix_nil.1 htail]
    rfl
  | cons e more =>
    cases he : e == 0x65 || e == 0x45 with
    | false =>
      rw [exponent?_of_not_mark he] at h
      obtain ⟨rfl, rfl⟩ := Prod.mk.inj (Option.some.inj h)
      refine ⟨[], rfl, by simp, fun tail htail => ?_⟩
      cases tail with
      | nil => rfl
      | cons b bs =>
        obtain ⟨behind, hbehind⟩ := htail
        rw [List.nil_append, (List.cons.inj hbehind).1, exponent?_of_not_mark he]
    | true =>
      have hbyte : isNumberByte e = true := by
        rcases Bool.or_eq_true .. ▸ he with he | he <;> rw [beq_iff_eq.1 he] <;> decide
      have hdigits : ∀ {bytes ds : Bytes}, digits? bytes = some (ds, rest) → ∃ w, bytes = w ++ rest ∧
          (∀ b ∈ w, isNumberByte b = true) ∧ ∀ tail, tail <+: rest → digits? (w ++ tail) = some (ds, tail) := by
        intro bytes ds hds
        obtain ⟨w, hw, hall, hagain⟩ := takes_digits hds
        exact ⟨w, hw, fun b hb => isNumberByte_of_isDigit (hall b hb), hagain⟩
      -- a plus, a minus or no sign, and digits behind each
      rw [exponent?.eq_def] at h
      dsimp only at h
      rw [if_pos he] at h
      split at h
      all_goals
        obtain ⟨⟨ds, left⟩, hds, heq⟩ := Option.map_eq_some_iff.1 h
        obtain ⟨rfl, rfl⟩ := Prod.mk.inj heq
        obtain ⟨w, hw, hall, hagain⟩ := hdigits hds
      · refine ⟨e :: 0x2B :: w, by rw [hw]; rfl, ?_, fun tail htail => ?_⟩
        · exact List.forall_mem_cons.2 ⟨hbyte, List.forall_mem_cons.2 ⟨by decide, hall⟩⟩
        · rw [List.cons_append, List.cons_append, exponent?_plus he, hagain tail htail]
          rfl
      · refine ⟨e :: 0x2D :: w, by rw [hw]; rfl, ?_, fun tail htail => ?_⟩
        · exact List.forall_mem_cons.2 ⟨hbyte, List.forall_mem_cons.2 ⟨by decide, hall⟩⟩
        · rw [List.cons_append, List.cons_append, exponent?_minus he, hagain tail htail]
          rfl
      · refine ⟨e :: w, by rw [hw]; rfl, List.forall_mem_cons.2 ⟨hbyte, hall⟩, fun tail htail => ?_⟩
        obtain ⟨b, bs, hcons, hb⟩ := exists_digit (hagain tail htail)
        rw [List.cons_append, hcons, exponent?_of_isDigit he hb, ← hcons, hagain tail htail]
        rfl

end Exponents

/-- A number with its sign, when its parts are read one after the other. -/
theorem number?_eq {sign bytes r₁ r₂ rest whole frac ex : Bytes} (hsign : sign = [0x2D] ∨ sign = [] ∧ bytes.head? ≠ some 0x2D)
    (hwhole : whole? bytes = some (whole, r₁)) (hfrac : fraction? r₁ = some (frac, r₂)) (hexp : exponent? r₂ = some (ex, rest)) :
    number? (sign ++ bytes) = some (Text.ofBytes (sign ++ whole ++ frac ++ ex), rest) := by
  rcases hsign with rfl | ⟨rfl, hhead⟩
  · simp [number?, hwhole, hfrac, hexp]
  · simp [number?, hhead, hwhole, hfrac, hexp]

theorem takes_number : Takes isNumberByte number? := by
  intro bytes text rest h
  simp only [number?, Option.bind_eq_bind, Option.bind_eq_some_iff] at h
  obtain ⟨⟨whole, r₁⟩, hwhole, ⟨frac, r₂⟩, hfrac, ⟨ex, r₃⟩, hexp, heq⟩ := h
  obtain ⟨htext, hrest⟩ := Prod.mk.inj (Option.some.inj heq)
  dsimp only at hwhole hfrac hexp htext hrest
  subst hrest
  obtain ⟨w₁, h₁, hdigits, again₁⟩ := takes_whole hwhole
  obtain ⟨w₂, h₂, hall₂, again₂⟩ := takes_fraction hfrac
  obtain ⟨w₃, h₃, hall₃, again₃⟩ := takes_exponent hexp
  subst h₂ h₃
  have hall : ∀ b ∈ w₁ ++ (w₂ ++ w₃), isNumberByte b = true := by
    simp only [List.forall_mem_append]
    exact ⟨fun b hb => isNumberByte_of_isDigit (hdigits b hb), hall₂, hall₃⟩
  have hwholeAgain : ∀ tail, tail <+: r₃ → whole? (w₁ ++ (w₂ ++ (w₃ ++ tail))) = some (whole, w₂ ++ (w₃ ++ tail)) :=
    fun tail htail => again₁ _ ((List.prefix_append_right_inj w₂).2 ((List.prefix_append_right_inj w₃).2 htail))
  have hfracAgain : ∀ tail, tail <+: r₃ → fraction? (w₂ ++ (w₃ ++ tail)) = some (frac, w₃ ++ tail) :=
    fun tail htail => again₂ _ ((List.prefix_append_right_inj w₃).2 htail)
  -- the whole part is not empty, so what stands in front of a number without a sign is a digit
  obtain ⟨d, ds, rfl⟩ : ∃ d ds, w₁ = d :: ds := by
    cases w₁ with
    | nil => cases again₁ [] List.nil_prefix
    | cons d ds => exact ⟨d, ds, rfl⟩
  have hd : d ≠ 0x2D := fun hd => by cases hd ▸ hdigits d List.mem_cons_self
  by_cases hsign : bytes.head? = some 0x2D
  · rw [if_pos hsign] at h₁ htext
    obtain ⟨more, rfl⟩ := List.head?_eq_some_iff.1 hsign
    dsimp only [List.tail_cons] at h₁ htext
    refine ⟨[0x2D] ++ (d :: ds ++ (w₂ ++ w₃)), by rw [h₁]; simp, ?_, fun tail htail => ?_⟩
    · exact List.forall_mem_append.2 ⟨List.forall_mem_singleton.2 (by decide), hall⟩
    · have hread := number?_eq (.inl rfl) (hwholeAgain tail htail) (hfracAgain tail htail) (again₃ tail htail)
      rw [htext] at hread
      rw [← hread]
      simp
  · rw [if_neg hsign] at h₁ htext
    dsimp only at h₁ htext
    refine ⟨d :: ds ++ (w₂ ++ w₃), by rw [h₁]; simp, hall, fun tail htail => ?_⟩
    have hhead : (d :: ds ++ (w₂ ++ (w₃ ++ tail))).head? ≠ some 0x2D := by simpa using hd
    have hread := number?_eq (.inr ⟨rfl, hhead⟩) (hwholeAgain tail htail) (hfracAgain tail htail) (again₃ tail htail)
    rw [htext] at hread
    rw [← hread]
    simp

/-- A number begins with a digit or a minus sign. -/
theorem exists_front_of_number {bytes rest : Bytes} {text : String} (h : number? bytes = some (text, rest)) :
    ∃ b bs, bytes = b :: bs ∧ (isDigit b = true ∨ b = 0x2D) := by
  cases bytes with
  | nil => cases h
  | cons b bs =>
    refine ⟨b, bs, rfl, ?_⟩
    by_cases hb : b = 0x2D
    · exact .inr hb
    · simp only [number?, Option.bind_eq_bind, Option.bind_eq_some_iff] at h
      obtain ⟨⟨whole, r₁⟩, hwhole, -⟩ := h
      rw [if_neg (by simpa using hb)] at hwhole
      obtain ⟨w, hw, hdigits, hagain⟩ := takes_whole hwhole
      cases w with
      | nil => cases hagain [] List.nil_prefix
      | cons d ds =>
        rw [(List.cons.inj hw).1]
        exact .inl (hdigits d List.mem_cons_self)

/-! ## Strings -/

/-- A string is read up to its closing quote, which neither the splitter of strings nor the splitter of values passes
over. -/
structure Quoted (body : Bytes) : Prop where
  split : ∀ tail, splitQuoted? (body ++ 0x22 :: tail) = some (body, tail)
  string : ∀ tail, splitString (body ++ 0x22 :: tail) = (body ++ [0x22], tail)
  value : ∀ depth tail, splitValue depth true (body ++ 0x22 :: tail) =
    (body ++ 0x22 :: (splitValue depth false tail).1, (splitValue depth false tail).2)

theorem Quoted.nil : Quoted [] := ⟨fun _ => rfl, fun _ => rfl, fun _ _ => rfl⟩

theorem Quoted.escape {body : Bytes} (h : Quoted body) (b : UInt8) : Quoted (0x5C :: b :: body) where
  split tail := by
    rw [List.cons_append, List.cons_append, splitQuoted?, h.split]
    rfl
  string tail := by
    rw [List.cons_append, List.cons_append, splitString, h.string]
    rfl
  value depth tail := by
    rw [List.cons_append, List.cons_append, splitValue, h.value]
    rfl

theorem Quoted.plain {body : Bytes} (h : Quoted body) {b : UInt8} (hquote : b ≠ 0x22) (hback : b ≠ 0x5C)
    (hcontrol : ¬b < 0x20) : Quoted (b :: body) where
  split tail := by
    rw [List.cons_append, splitQuoted?, if_neg (by simpa using hquote), if_neg hcontrol, h.split]
    · rfl
    · exact fun c rest hb _ => hback hb
  string tail := by
    rw [List.cons_append, splitString, if_neg (by simpa using hquote), h.string]
    · rfl
    · exact fun c rest hb _ => hback hb
  value depth tail := by
    rw [List.cons_append, splitValue, bne_iff_ne.2 hquote, h.value]
    · rfl
    · exact fun c rest hb _ => hback hb

theorem exists_quoted {bytes body rest : Bytes} (h : splitQuoted? bytes = some (body, rest)) :
    bytes = body ++ 0x22 :: rest ∧ Quoted body := by
  fun_induction splitQuoted? bytes generalizing body rest with
  | case1 b more ih =>
    obtain ⟨⟨inner, left⟩, hinner, heq⟩ := Option.map_eq_some_iff.1 h
    obtain ⟨rfl, rfl⟩ := Prod.mk.inj heq
    obtain ⟨hbytes, hquoted⟩ := ih hinner
    exact ⟨by rw [hbytes]; rfl, hquoted.escape b⟩
  | case2 b more hescape hquote =>
    obtain ⟨rfl, rfl⟩ := Prod.mk.inj (Option.some.inj h)
    exact ⟨by rw [beq_iff_eq.1 hquote]; rfl, .nil⟩
  | case3 => cases h
  | case4 b more hescape hquote hcontrol ih =>
    obtain ⟨⟨inner, left⟩, hinner, heq⟩ := Option.map_eq_some_iff.1 h
    obtain ⟨rfl, rfl⟩ := Prod.mk.inj heq
    obtain ⟨hbytes, hquoted⟩ := ih hinner
    refine ⟨by rw [hbytes]; rfl, hquoted.plain (by simpa using hquote) (fun hback => ?_) hcontrol⟩
    -- a backslash at the end of the document would have nothing to escape
    obtain ⟨c, cs, hcs⟩ : ∃ c cs, more = c :: cs := by
      rw [hbytes]
      cases inner with
      | nil => exact ⟨_, _, rfl⟩
      | cons c cs => exact ⟨_, _, rfl⟩
    exact hescape c cs hback hcs
  | case5 => cases h

theorem exists_string {bytes rest : Bytes} {s : String} (h : string? bytes = some (s, rest)) :
    ∃ body, bytes = body ++ 0x22 :: rest ∧ Quoted body ∧ ∀ tail, string? (body ++ 0x22 :: tail) = some (s, tail) := by
  simp only [string?, Option.bind_eq_bind, Option.bind_eq_some_iff] at h
  obtain ⟨⟨body, left⟩, hsplit, chars, hchars, heq⟩ := h
  obtain ⟨htext, rfl⟩ := Prod.mk.inj (Option.some.inj heq)
  obtain ⟨hbytes, hquoted⟩ := exists_quoted hsplit
  refine ⟨body, hbytes, hquoted, fun tail => ?_⟩
  simp [string?, hquoted.split, hchars, htext]

end Blockwright.Json
