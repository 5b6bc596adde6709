import Blockwright.Proofs.Lexical.Operands
/-!
# Readings of code in two parts

The tokens of code that is put together are those of its parts where a new token begins at the seam. A point
behind an operand begins a new token unless the operand ends with a whole number, which takes the point for
its own; a bracket always does.
-/

namespace Blockwright.Lexical

open Text Operators

/-! ## Seams -/

namespace Reading

variable {r r' : Reading} {cs ds : List Char} {us : List String}

theorem read_cons (r : Reading) (c : Char) (cs : List Char) : r.read (c :: cs) = (r.step c).bind fun r' => r'.read cs :=
  List.foldlM_cons

theorem read_append (r : Reading) (cs ds : List Char) : r.read (cs ++ ds) = (r.read cs).bind fun r' => r'.read ds :=
  List.foldlM_append

/-- A reading stands where the lexer does. -/
theorem mode_read (r : Reading) (cs : List Char) : (r.read cs).map mode = r.mode.run? cs := by
  induction cs generalizing r with
  | nil => rfl
  | cons c cs ih =>
    rw [read_cons, Mode.run?_cons, step]
    cases r.mode.next? c with
    | none => rfl
    | some move => cases move <;> exact ih _

/-- The reading with more tokens in front. -/
def behind (ts : List String) (r : Reading) : Reading := { r with tokens := ts ++ r.tokens }

theorem read_behind (ts : List String) (r : Reading) (cs : List Char) :
    (r.behind ts).read cs = (r.read cs).map (behind ts) := by
  induction cs generalizing r with
  | nil => rfl
  | cons c cs ih =>
    have hstep : (r.behind ts).step c = (r.step c).map (behind ts) := by
      simp only [step, behind]
      rcases r.mode.next? c with _ | _ | _ <;> simp [behind]
    rw [read_cons, read_cons, hstep]
    cases r.step c with
    | none => rfl
    | some r' => exact ih r'

/-- Tokens that have ended stay. -/
theorem tokens_stay (h : r.read cs = some r') : r.tokens <+: r'.tokens := by
  have hbare : r = ({ r with tokens := [] } : Reading).behind r.tokens := by simp [behind]
  rw [hbare, read_behind] at h
  obtain ⟨bare, -, rfl⟩ := Option.map_eq_some_iff.1 h
  exact List.prefix_append _ _

/-- The tokens that have ended when the token that is being read ends too. -/
def ended (r : Reading) : List String := r.tokens ++ r.mode.token r.held

theorem finish?_eq_some_iff : r.finish? = some us ↔ r.mode.mayEnd = true ∧ r.ended = us := by
  unfold finish? ended
  split
  · next h => simp [h]
  · next h => simp [h]

/-- The code goes on with a new token, if it goes on. -/
def Seam (r : Reading) (cs : List Char) : Prop := ∀ c ∈ cs.head?, ∀ m, r.mode.next? c ≠ some (.on m)

/-- What is read in front of a seam is among the tokens. -/
theorem Seam.ended_stays (h : r.Seam cs) (hr : (r.read cs).bind finish? = some us) : r.ended <+: us := by
  obtain ⟨r', hread, hfinish⟩ := Option.bind_eq_some_iff.1 hr
  obtain ⟨-, rfl⟩ := finish?_eq_some_iff.1 hfinish
  cases cs with
  | nil =>
    cases hread
    exact List.prefix_rfl
  | cons c cs =>
    rw [read_cons] at hread
    obtain ⟨r₁, hstep, hrest⟩ := Option.bind_eq_some_iff.1 hread
    obtain ⟨move, hmove, rfl⟩ := Option.map_eq_some_iff.1 hstep
    cases move with
    | on m => exact absurd hmove (h c rfl m)
    | anew m => exact (tokens_stay hrest).trans (List.prefix_append _ _)

end Reading

/-! ## Numbers and other tokens -/

/-- Whether a token that ends here is made of digits alone, where a token is read. -/
def Mode.isWhole? : Mode → Option Bool
  | .blank _ | .line _ | .block _ | .star _ => none
  | m => some (m = .leaf .whole)

theorem isDigit_of_next? {phase phase' : Phase} {c : Char} (h : phase.next? c = some phase') :
    decide (phase' = .whole) = (decide (phase = .whole) && isDigit c) := by
  cases phase <;> simp only [Phase.next?] at h <;> split_ifs at h <;> cases h <;> simp_all

theorem isDigit_of_start? {phase : Phase} {c : Char} (h : Phase.start? c = some phase) :
    decide (phase = .whole) = isDigit c := by
  unfold Phase.start? at h
  split_ifs at h <;> cases h <;> simp_all

theorem not_isDigit_of_start? {c : Char} (h : Phase.start? c = none) : isDigit c = false := by
  unfold Phase.start? at h
  split_ifs at h with hdigit
  exact Bool.eq_false_iff.2 hdigit

namespace Mode

variable {m m' : Mode} {c : Char} {b' : Bool}

theorem patternNext?_on {inClass : Bool} {move : Move} (h : patternNext? inClass c = some move) :
    ∃ m', move = .on m' ∧ m'.isWhole? = some false := by
  unfold patternNext? at h
  split_ifs at h <;> exact ⟨_, (Option.some.inj h).symm, rfl⟩

/-- What a character begins does not depend on where it does. -/
theorem start?_of_anew (h : m.next? c = some (.anew m')) : ∃ operand, start? operand c = some m' := by
  have hmap : ∀ operand, (start? operand c).map Move.anew = some (.anew m') → ∃ operand, start? operand c = some m' := by
    intro operand hmap
    obtain ⟨m'', hstart, he⟩ := Option.map_eq_some_iff.1 hmap
    cases he
    exact ⟨operand, hstart⟩
  -- inside a pattern nothing begins
  have hpattern : ∀ inClass, patternNext? inClass c ≠ some (.anew m') := by
    intro inClass hmove
    obtain ⟨m'', he, -⟩ := patternNext?_on hmove
    cases he
  cases m with
  | blank operand => exact hmap _ h
  | literal => exact hmap _ h
  | leaf phase =>
    simp only [next?] at h
    split at h
    · cases h
    · split_ifs at h
      exact hmap _ h
  | slash operand =>
    simp only [next?] at h
    split_ifs at h <;> first | exact hmap _ h | exact absurd h (hpattern _) | cases h
  | line operand =>
    simp only [next?] at h
    split_ifs at h with hfeed
    · cases h
      exact ⟨operand, by simp [start?, hfeed]⟩
    · cases h
  | pattern inClass => exact absurd h (hpattern _)
  | escape mark => cases h
  | block operand => cases h
  | star operand => cases h
  | string mark =>
    simp only [next?] at h
    split_ifs at h <;> cases h
  | patternEscape inClass =>
    simp only [next?] at h
    split_ifs at h
    cases h
  | flags =>
    simp only [next?] at h
    split_ifs at h <;> first | exact hmap _ h | cases h
  | symbol cs =>
    simp only [next?] at h
    split_ifs at h <;> first | exact hmap _ h | cases h

/-- A character that begins something else. -/
theorem isWhole?_anew (h : m.next? c = some (.anew m')) (hb' : m'.isWhole? = some b') : b' = isDigit c := by
  obtain ⟨operand, hstart⟩ := start?_of_anew h
  rw [start?] at hstart
  split at hstart
  · cases hstart
    cases hb'
  split at hstart
  · next hquote =>
    cases hstart
    cases hb'
    simp only [Bool.or_eq_true, decide_eq_true_eq] at hquote
    rcases hquote with rfl | rfl <;> rfl
  split at hstart
  · next hslash =>
    cases hstart
    cases hb'
    subst hslash
    rfl
  split at hstart
  · next phase hphase =>
    cases hstart
    rw [← isDigit_of_start? hphase, ← Option.some.inj hb']
    simp
  · next hphase =>
    split_ifs at hstart
    cases hstart
    cases hb'
    exact (not_isDigit_of_start? hphase).symm

/-- A character that goes on with a token. -/
theorem isWhole?_on (h : m.next? c = some (.on m')) (hb' : m'.isWhole? = some b') :
    ∃ b, m.isWhole? = some b ∧ b' = (b && isDigit c) := by
  have hnever : ∀ {o : Option Mode}, o.map Move.anew ≠ some (.on m') := by
    intro o
    cases o <;> simp
  -- but for numbers, no token that goes on is made of digits
  have hother : m.isWhole? = some false → m'.isWhole? = some false →
      ∃ b, m.isWhole? = some b ∧ b' = (b && isDigit c) := by
    intro hm hm'
    rw [hm', Option.some.injEq] at hb'
    exact ⟨false, hm, hb'.symm⟩
  have hpattern : ∀ inClass, patternNext? inClass c = some (.on m') → m'.isWhole? = some false := by
    intro inClass hmove
    obtain ⟨m'', he, hm''⟩ := patternNext?_on hmove
    cases he
    exact hm''
  cases m with
  | blank operand => exact absurd h hnever
  | literal => exact absurd h hnever
  | leaf phase =>
    simp only [next?] at h
    split at h
    · next phase' hphase =>
      cases h
      refine ⟨_, rfl, ?_⟩
      rw [← Option.some.inj hb']
      simpa using isDigit_of_next? hphase
    · split_ifs at h
      exact absurd h hnever
  | slash operand =>
    simp only [next?] at h
    split_ifs at h
    · cases h
      cases hb'
    · cases h
      cases hb'
    · cases h
      exact hother rfl rfl
    · exact absurd h hnever
    · exact hother rfl (hpattern _ h)
  | pattern inClass => exact hother rfl (hpattern _ h)
  | line operand =>
    simp only [next?] at h
    split_ifs at h
    · cases h
    · cases h
      cases hb'
  | block operand =>
    obtain rfl : (if c = '*' then Mode.star operand else .block operand) = m' := Move.on.inj (Option.some.inj h)
    split_ifs at hb' <;> cases hb'
  | star operand =>
    obtain rfl : (if c = '/' then Mode.blank operand else if c = '*' then .star operand else .block operand) = m' :=
      Move.on.inj (Option.some.inj h)
    split_ifs at hb' <;> cases hb'
  | escape mark =>
    cases h
    exact hother rfl rfl
  | _ =>
    simp only [next?] at h
    split_ifs at h <;> first | exact absurd h hnever | (cases h; exact hother rfl rfl)

end Mode

/-- A token that is being read is made of digits alone where the lexer is in a whole number. -/
def Reading.Told (r : Reading) : Prop := ∀ b, r.mode.isWhole? = some b → r.held.all isDigit = b

theorem Reading.Told.step {r r' : Reading} (h : r.Told) {c : Char} (hstep : r.step c = some r') : r'.Told := by
  obtain ⟨move, hmove, rfl⟩ := Option.map_eq_some_iff.1 hstep
  intro b' hb'
  cases move with
  | on m =>
    obtain ⟨b, hb, rfl⟩ := Mode.isWhole?_on hmove hb'
    simp [← h b hb]
  | anew m => simp [Mode.isWhole?_anew hmove hb']

theorem Reading.Told.read {r r' : Reading} (h : r.Told) {cs : List Char} (hread : r.read cs = some r') : r'.Told := by
  induction cs generalizing r with
  | nil =>
    cases hread
    exact h
  | cons c cs ih =>
    rw [read_cons] at hread
    obtain ⟨r₁, hstep, hrest⟩ := Option.bind_eq_some_iff.1 hread
    exact ih (h.step hstep) hrest

/-! ## Operands and what follows them -/

/-- Code has tokens when nothing in it stops the lexer, which a carriage return does. -/
theorem isSome_tokens? {code : String} {σ : Spot} (h : Leads (.blank false) code.toList σ)
    (hσ : ∀ m, σ.Holds m → m.mayEnd = true) : (tokens? code).isSome = true ↔ '\r' ∉ code.toList := by
  have hmode : (Reading.start.read code.toList).map Reading.mode = (Mode.blank false).run? code.toList :=
    Reading.mode_read _ _
  rw [tokens?]
  constructor
  · intro hsome hreturn
    rw [h.broken hreturn, Option.map_eq_none_iff] at hmode
    rw [hmode] at hsome
    cases hsome
  · intro hno
    obtain ⟨m, hrun, hm⟩ := h.reaches hno
    rw [hrun] at hmode
    obtain ⟨r, hread, rfl⟩ := Option.map_eq_some_iff.1 hmode
    rw [hread, Option.bind_some, Reading.finish?_eq_some_iff.2 ⟨hσ _ hm, rfl⟩]
    rfl

/-- Directly behind an operand its last token is being read. -/
theorem Mode.of_closes {m : Mode} (h : m.closes = true) :
    m.mayEnd = true ∧ (∀ held, m.token held = [String.ofList held]) ∧ m.isWhole? = some (decide (m = .leaf .whole)) := by
  have hmem := mem_closers h
  simp only [closers, List.mem_cons, List.not_mem_nil, or_false] at hmem
  rcases hmem with rfl | rfl | rfl | rfl | rfl | rfl | rfl
  all_goals exact ⟨rfl, fun _ => rfl, rfl⟩

/-- The last token is a number without a point or an exponent. -/
def endsWhole (ts : List String) : Bool := ts.getLast?.any fun t => t.toList.all isDigit

/-- An operand that has tokens is read to its end. -/
theorem IsOperand.exists_reading {code : String} (h : IsOperand code) {r : Reading}
    (hread : Reading.start.read code.toList = some r) :
    r.mode.closes = true ∧ tokens? code = some (r.tokens ++ [String.ofList r.held]) ∧
      (endsWhole (r.tokens ++ [String.ofList r.held]) = true ↔ r.mode = .leaf .whole) := by
  have hmode : (Reading.start.read code.toList).map Reading.mode = (Mode.blank false).run? code.toList :=
    Reading.mode_read _ _
  have hleads := h.leads (.blank false) rfl
  have hno : '\r' ∉ code.toList := by
    intro hreturn
    rw [hleads.broken hreturn, hread] at hmode
    cases hmode
  obtain ⟨m, hrun, hm⟩ := hleads.reaches hno
  rw [hrun, hread] at hmode
  obtain rfl : r.mode = m := Option.some.inj hmode
  obtain ⟨hend, htoken, hwhole⟩ := Mode.of_closes hm
  have htold : Reading.start.Told := by
    rintro b ⟨⟩
  refine ⟨hm, ?_, ?_⟩
  · rw [tokens?, hread, Option.bind_some, Reading.finish?_eq_some_iff.2 ⟨hend, rfl⟩, Reading.ended, htoken]
  · simp [endsWhole, htold.read hread _ hwhole]

/-- An exclamation mark, or nothing. -/
def bang (negated : Bool) : String := if negated then "!" else ""

theorem exists_symbol {c d : Char} (h : startsSymbol [c, d] = true) :
    ∃ s ∈ symbols, s.head? = some c ∧ s.tail.head? = some d := by
  obtain ⟨s, hs, hprefix⟩ := List.any_eq_true.1 h
  obtain ⟨more, rfl⟩ := List.isPrefixOf_iff_prefix.1 hprefix
  exact ⟨_, hs, rfl, rfl⟩

theorem next?_bang {c : Char} (h : c ≠ '=') : (Mode.symbol ['!']).next? c = (Mode.blank false).next? c := by
  have hcheck : symbols.all (fun s => s.head? != some '!' || s.tail.head?.all (· == '=')) = true := by decide
  have hlonger : startsSymbol ['!', c] = false := Bool.eq_false_iff.2 fun hstart => by
    obtain ⟨s, hs, hhead, hnext⟩ := exists_symbol hstart
    simpa [hhead, hnext, h] using List.all_eq_true.1 hcheck s hs
  have hcomplete : ['!'] ∈ symbols := by decide
  simp [Mode.next?, hlonger, hcomplete, Mode.ends]

/-- An exclamation mark in front is a token of its own. -/
theorem Reading.read_bang (negated : Bool) {c : Char} (hc : c ≠ '=') (cs : List Char) :
    Reading.start.read ((bang negated).toList ++ c :: cs) =
      (Reading.start.read (c :: cs)).map (behind (if negated then ["!"] else [])) := by
  cases negated with
  | false =>
    have hsame : behind [] = id := rfl
    rw [if_neg Bool.false_ne_true, hsame, Option.map_id]
    rfl
  | true =>
    have hfirst : Reading.start.step '!' = some ⟨[], .symbol ['!'], ['!']⟩ := rfl
    have hbang : (bang true).toList ++ c :: cs = '!' :: c :: cs := rfl
    rw [hbang, read_cons, hfirst, Option.bind_some, read_cons, read_cons, step, step, next?_bang hc]
    have hnext : (Mode.blank false).next? c = (Mode.start? false c).map Move.anew := rfl
    have hmode : Reading.start.mode = .blank false := rfl
    rw [hmode, hnext]
    cases Mode.start? false c with
    | none => rfl
    | some m => exact read_behind ["!"] ⟨[], m, [c]⟩ cs

theorem seam_bracket {tokens : List String} {held : List Char} (cs : List Char) :
    Reading.Seam ⟨tokens, .symbol ['['], held⟩ cs := by
  intro d _ m hmove
  have hcheck : symbols.all (fun s => s.head? != some '[' || s.tail.head? == none) = true := by decide
  have hlonger : startsSymbol ['[', d] = false := Bool.eq_false_iff.2 fun hstart => by
    obtain ⟨s, hs, hhead, hnext⟩ := exists_symbol hstart
    simpa [hhead, hnext] using List.all_eq_true.1 hcheck s hs
  have hcomplete : ['['] ∈ symbols := by decide
  simp [Mode.next?, hlonger, hcomplete] at hmove

theorem seam_member {r : Reading} (hm : r.mode = .symbol ['.'] ∨ r.mode = .leaf .fraction) {cs : List Char}
    (hcs : ∃ c ∈ cs.head?, Spot.isMember c = true) : r.Seam cs := by
  obtain ⟨c, hc, hmember⟩ := hcs
  intro d hd m
  obtain rfl := Option.mem_unique hc hd
  rw [Mode.next?_member hm hmember]
  simp

/-- Behind an operand a bracket is a token of its own, and so is a point with a name behind it, unless the
operand ends with a whole number. -/
theorem tokens_access {operand : String} (h : IsOperand operand) (negated : Bool) {mark : Char} {rest : List Char}
    (hmark : mark = '[' ∨ mark = '.' ∧ ∃ c ∈ rest.head?, Spot.isMember c = true) {us : List String}
    (hus : tokens? (bang negated ++ operand ++ String.ofList (mark :: rest)) = some us) :
    ∃ ts, tokens? operand = some ts ∧
      ((if negated then ["!"] else []) ++ ts ++ [String.singleton mark] <+: us ↔ ¬(mark = '.' ∧ endsWhole ts = true)) := by
  obtain ⟨c, cs, hcs, hc⟩ := h.front
  rw [tokens?, String.toList_append, String.toList_append, String.toList_ofList, hcs, Reading.read_append,
    Reading.read_bang negated hc, ← hcs] at hus
  cases hread : Reading.start.read operand.toList with
  | none =>
    rw [hread] at hus
    cases hus
  | some r =>
    obtain ⟨hcloses, htokens, hwhole⟩ := h.exists_reading hread
    refine ⟨_, htokens, ?_⟩
    rw [hread, Option.map_some, Option.bind_some, Reading.read_cons] at hus
    generalize (if negated then ["!"] else []) = front at hus ⊢
    have htoken := (Mode.of_closes hcloses).2.1 r.held
    -- a mark that is a token of its own, with a seam on either side
    have hown : r.mode.next? mark = some (.anew (.symbol [mark])) →
        (∀ tokens held, Reading.Seam ⟨tokens, .symbol [mark], held⟩ rest) →
        front ++ (r.tokens ++ [String.ofList r.held]) ++ [String.singleton mark] <+: us := by
      intro hmove hseam
      have hstep : (r.behind front).step mark =
          some ⟨front ++ (r.tokens ++ [String.ofList r.held]), .symbol [mark], [mark]⟩ := by
        simp [Reading.step, Reading.behind, hmove, htoken]
      rw [hstep] at hus
      exact (hseam _ _).ended_stays hus
    rcases hmark with rfl | ⟨rfl, hmember⟩
    · have hmove : r.mode.next? '[' = some (.anew (.symbol ['['])) := Mode.next?_of_closes hcloses (by decide)
      simpa using hown hmove fun _ _ => seam_bracket rest
    · obtain ⟨move, hmove, ⟨hmode, rfl⟩ | ⟨hmode, rfl⟩⟩ := Mode.next?_point hcloses
      · -- the number takes the point
        have hstep : (r.behind front).step '.' =
            some ⟨front ++ r.tokens, .leaf .fraction, r.held ++ ['.']⟩ := by
          simp [Reading.step, Reading.behind, hmove]
        rw [hstep] at hus
        have hprefix : front ++ (r.tokens ++ [String.ofList (r.held ++ ['.'])]) <+: us := by
          simpa [Reading.ended, Mode.token] using (seam_member (.inr rfl) hmember).ended_stays hus
        refine ⟨fun hpoint => ?_, fun hother => absurd ⟨rfl, hwhole.2 hmode⟩ hother⟩
        have hshort := (List.prefix_append _ _).trans hpoint
        have hsame := List.IsPrefix.eq_of_length (List.prefix_of_prefix_length_le hshort hprefix (by simp)) (by simp)
        have hlength : String.ofList r.held ≠ String.ofList r.held ++ "." := by
          intro hlast
          have hchars := congrArg String.toList hlast
          simp at hchars
        exact absurd (by simpa using hsame) hlength
      · have hother : ¬endsWhole (r.tokens ++ [String.ofList r.held]) = true := fun hend => hmode (hwhole.1 hend)
        simpa [hother] using hown hmove fun _ _ => seam_member (.inl rfl) hmember

end Blockwright.Lexical
