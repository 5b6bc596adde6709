import Mathlib.Tactic.SplitIfs
import Blockwright.Emit.Site
import Blockwright.Number.Text
import Blockwright.Proofs.Names.Identifiers
import Blockwright.Proofs.Text.Layout
import Blockwright.Text.Quoted
/-!
# Sealed texts

What users write reaches generated code as a literal, as a comment, as a number or as a name.
Each of these is sealed, whatever the text is that it was made from.
-/

namespace Blockwright.Scan

open Text

/-! ## Literals -/

theorem strict_quoteChar (owed : List Char) (c : Char) :
    strict (.on (.quoted .single) owed) (quoteChar c) = .on (.quoted .single) owed := by
  unfold quoteChar
  split_ifs with hback hfeed hmark
  · rfl
  · rfl
  · rfl
  · simp [strictStep, step, Mark.char, hback, hfeed, hmark]

theorem strict_flatMap_quoteChar (owed cs : List Char) :
    strict (.on (.quoted .single) owed) (cs.flatMap quoteChar) = .on (.quoted .single) owed := by
  induction cs with
  | nil => rfl
  | cons c cs ih => rw [List.flatMap_cons, strict_append, strict_quoteChar, ih]

theorem sealed_quote (text : String) : Sealed (quote text) := by
  intro owed
  rw [quote, String.toList_ofList, strict_cons, strict_append]
  exact congrArg (strict · ['\'']) (strict_flatMap_quoteChar owed text.toList)

theorem sealed_quoteLines (text : String) : Sealed (quoteLines text) := by
  have hsep : Sealed " + '\\n' +\n" := sealed_lit _ (by decide)
  refine sealed_joinWith hsep fun s hs => ?_
  obtain ⟨line, -, rfl⟩ := List.mem_map.1 hs
  exact sealed_quote line

/-! ## Comments -/

/-- The lead of a comment line. -/
def commentLead : List Char := ['/', '/', ' ']

theorem strict_commentLead (owed : List Char) : strict (.on .code owed) commentLead = .on .comment owed := rfl

/-- Lines that all have the lead stay in comments. -/
theorem strict_comment (owed cs : List Char) :
    strict (.on .comment owed) (leadAfterFeeds commentLead cs) = .on .comment owed := by
  induction cs with
  | nil => rfl
  | cons c cs ih =>
    rw [leadAfterFeeds]
    split_ifs with hc
    · rw [strict_cons, strict_append]
      exact ih
    · have hstep : strictStep (.on .comment owed) c = .on .comment owed := if_neg hc
      rw [strict_cons, hstep]
      exact ih

theorem sealed_comment (text : String) : Sealed (prefixLines (text ++ "\n") "// ") := by
  intro owed
  have hfeed : (text ++ "\n").toList = text.toList ++ ['\n'] := String.toList_append
  have hchars : prefixChars commentLead (text.toList ++ ['\n'])
      = commentLead ++ leadAfterFeeds commentLead text.toList ++ ['\n'] := by
    rw [prefixChars, if_pos List.getLast?_concat, List.dropLast_concat]
  rw [prefixLines, String.toList_ofList, hfeed]
  show strict (.on .code owed) (prefixChars commentLead (text.toList ++ ['\n'])) = _
  rw [hchars, strict_append, strict_append, strict_commentLead, strict_comment]
  rfl

theorem sealed_ownComment (b : Block) : Sealed (ownComment b) := sealed_ite sealed_empty (sealed_comment _)

theorem sealed_nestedComment (b : Block) : Sealed (nestedComment b) :=
  sealed_ite sealed_empty (sealed_comment _)

theorem sealed_socketComments (sockets : List Socket) : Sealed (socketComments sockets) := by
  fun_induction socketComments sockets with
  | case1 => exact sealed_empty
  | case2 name b rest ih => exact (sealed_nestedComment b).append ih
  | case3 socket rest _ ih => exact ih

theorem sealed_commentLines (b : Block) : Sealed (commentLines b) :=
  sealed_ite sealed_empty ((sealed_ownComment b).append (sealed_socketComments b.sockets))

/-! ## Numbers -/

theorem isPlain_of_isDigit {c : Char} (h : isDigit c = true) : isPlain c = true :=
  isPlain_of_isWordChar (Identifier.isWordChar_of_isDigit h)

theorem sealed_ofNat (n : Nat) : Sealed (ofNat n) :=
  sealed_plain fun _ hc => isPlain_of_isDigit (Identifier.isDigit_of_mem_ofNat hc)

theorem sealed_ofInt (n : Int) : Sealed (ofInt n) :=
  sealed_ite ((Woven.lit _ |>.addCode (sealed_ofNat _)).sealed (by decide)) (sealed_ofNat _)

theorem sealed_ofBool (b : Bool) : Sealed (ofBool b) := by
  cases b <;> exact sealed_lit _ (by decide)

theorem isPlain_of_mem_replicate {c : Char} {n : Nat} (h : c ∈ List.replicate n '0') : isPlain c = true := by
  obtain rfl := List.eq_of_mem_replicate h
  decide

theorem isPlain_positional {digits : List Char} (h : ∀ c ∈ digits, isPlain c = true) (point : Int) :
    ∀ c ∈ Double.positional digits point, isPlain c = true := by
  intro c hc
  unfold Double.positional at hc
  split_ifs at hc
  · simp only [List.mem_cons, List.mem_append] at hc
    rcases hc with rfl | rfl | hc | hc
    · decide
    · decide
    · exact isPlain_of_mem_replicate hc
    · exact h c hc
  · rcases List.mem_append.1 hc with hc | hc
    · exact h c hc
    · exact isPlain_of_mem_replicate hc
  · simp only [List.mem_append, List.mem_cons] at hc
    rcases hc with hc | rfl | hc
    · exact h c (List.mem_of_mem_take hc)
    · decide
    · exact h c (List.mem_of_mem_drop hc)

theorem isPlain_padded (width n : Nat) : ∀ c ∈ (Decimal.padded width n).toList, isPlain c = true := by
  intro c hc
  rw [Decimal.padded, String.toList_ofList] at hc
  rcases List.mem_append.1 hc with hc | hc
  · exact isPlain_of_mem_replicate hc
  · exact isPlain_of_isDigit (Identifier.isDigit_of_mem_toDigits hc)

theorem isPlain_scientific {digits : List Char} (h : ∀ c ∈ digits, isPlain c = true) (width : Nat) (exponent : Int) :
    ∀ c ∈ Double.scientific width digits exponent, isPlain c = true := by
  intro c hc
  unfold Double.scientific at hc
  extract_lets mantissa sign at hc
  have hmantissa : ∀ d ∈ mantissa, isPlain d = true := by
    intro d hd
    unfold mantissa at hd
    split at hd
    · simp at hd
    · exact h d hd
    · rcases List.mem_cons.1 hd with rfl | hd
      · exact h _ List.mem_cons_self
      · rcases List.mem_cons.1 hd with rfl | hd
        · decide
        · exact h d (List.mem_cons_of_mem _ hd)
  have hsign : isPlain sign = true := by
    unfold sign
    split_ifs <;> decide
  simp only [List.mem_append, List.mem_cons] at hc
  rcases hc with hc | rfl | rfl | hc
  · exact hmantissa c hc
  · decide
  · exact hsign
  · exact isPlain_padded _ _ c hc

theorem sealed_format (x : Double) : Sealed x.format := by
  rw [Double.format]
  rcases x with _ | negative | ⟨negative, m, e⟩
  · exact sealed_lit _ (by decide)
  · cases negative <;> exact sealed_lit _ (by decide)
  · rw [Double.toText]
    refine sealed_ite ?_ ?_
    · exact sealed_ite (sealed_lit _ (by decide)) (sealed_lit _ (by decide))
    · have hdigits : ∀ c ∈ Nat.toDigits 10 (Double.shortest m e).value, isPlain c = true :=
        fun c hc => isPlain_of_isDigit (Identifier.isDigit_of_mem_toDigits hc)
      refine (sealed_ite (sealed_lit _ (by decide)) sealed_empty).append (sealed_plain ?_)
      rw [String.toList_ofList]
      split_ifs
      · exact isPlain_scientific hdigits _ _
      · exact isPlain_positional hdigits _

/-! ## Names -/

theorem sealed_of_isLegal {name : String} (h : Identifier.isLegal name = true) : Sealed name :=
  sealed_plain fun c hc => isPlain_of_isWordChar (Identifier.isWordChar_of_mem h c hc)

/-- The state behind a word. -/
def State.pastWord : State → State
  | .on .slash owed => .on .code owed
  | .on (.escaped mark) owed => .on (.quoted mark) owed
  | σ => σ

theorem ne_of_isWordChar {c d : Char} (h : isWordChar c = true) (hd : isWordChar d = false) : c ≠ d := by
  rintro rfl
  rw [h] at hd
  exact Bool.noConfusion hd

theorem strictStep_word {c : Char} (h : isWordChar c = true) (σ : State) : strictStep σ c = σ.pastWord := by
  have hcode : ∀ owed, inCode owed c = .on .code owed := fun _ => inCode_plain (isPlain_of_isWordChar h)
  rcases σ with ⟨_ | _ | mark | mark | _, owed⟩ | _
  · exact hcode owed
  · have hstep : strictStep (.on .slash owed) c = inCode owed c := if_neg (ne_of_isWordChar h (by decide))
    rw [hstep, hcode]
    rfl
  · have hmark : isWordChar mark.char = false := by cases mark <;> decide
    rw [strictStep, if_neg (ne_of_isWordChar h (by decide)), step, if_neg (ne_of_isWordChar h (by decide)),
      if_neg (ne_of_isWordChar h hmark)]
    rfl
  · rfl
  · exact if_neg (ne_of_isWordChar h (by decide))
  · rfl

theorem strict_word {c : Char} {cs : List Char} (h : ∀ d ∈ c :: cs, isWordChar d = true) (σ : State) :
    strict σ (c :: cs) = σ.pastWord := by
  induction cs generalizing σ c with
  | nil => exact strictStep_word (h c List.mem_cons_self) σ
  | cons d cs ih =>
    have hpast : σ.pastWord.pastWord = σ.pastWord := by rcases σ with ⟨_ | _ | _ | _ | _, _⟩ | _ <;> rfl
    rw [strict_cons, strictStep_word (h c List.mem_cons_self), ih fun x hx => h x (List.mem_cons_of_mem _ hx), hpast]

theorem strict_functionMark (σ : State) : strict σ Emit.functionMark.toList = σ.pastWord := by
  have hmark : Emit.functionMark.toList
      = ['\x7b', 'f', 'u', 'n', 'c', 't', 'i', 'o', 'n', 'N', 'a', 'm', 'e', '\x7d'] := rfl
  rw [hmark]
  rcases σ with ⟨_ | _ | mark | mark | _, owed⟩ | _ <;> try cases mark
  all_goals rfl

theorem replaceAfter_drop (find put : List Char) (skip : Nat) (cs : List Char) :
    replaceAfter find put skip cs = replaceAfter find put 0 (cs.drop skip) := by
  induction skip generalizing cs with
  | zero => rfl
  | succ skip ih =>
    cases cs with
    | nil => rfl
    | cons c cs => exact ih cs

/-- A text that is replaced by one the scanner reads alike. -/
theorem strict_replaceAfter {find put : List Char} (hfind : find ≠ []) (h : ∀ σ, strict σ put = strict σ find) (σ : State)
    (cs : List Char) : strict σ (replaceAfter find put 0 cs) = strict σ cs := by
  -- by the length of what is left, since an occurrence is skipped as a whole
  induction hn : cs.length using Nat.strongRecOn generalizing σ cs with
  | ind n ih =>
    subst hn
    cases cs with
    | nil => rfl
    | cons c cs =>
      rw [replaceAfter]
      split_ifs with hstart
      · obtain ⟨more, hmore⟩ := List.isPrefixOf_iff_prefix.1 hstart
        obtain ⟨f, fs, rfl⟩ := List.exists_cons_of_ne_nil hfind
        rw [List.cons_append] at hmore
        obtain ⟨rfl, rfl⟩ := List.cons.inj hmore
        have hlt : more.length < (f :: (fs ++ more)).length := by
          rw [List.length_cons, List.length_append]
          omega
        rw [replaceAfter_drop, List.length_cons, Nat.add_sub_cancel, List.drop_left, strict_append, h,
          ih more.length hlt _ more rfl, ← strict_append]
        rfl
      · rw [strict_cons, ih cs.length (by simp) _ cs rfl, strict_cons]

theorem sealed_helperCode {indent name body : String} (hname : Identifier.isLegal name = true)
    (hindent : ∀ c ∈ indent.toList, c = ' ' ∨ c = '\t') (hbody : Sealed body) :
    Sealed (Emit.helperCode indent name body) := by
  -- the mark and the name stand in strings and comments of the body as well, so from every state
  have hput : ∀ σ, strict σ name.toList = strict σ Emit.functionMark.toList := by
    intro σ
    have hword := Identifier.isWordChar_of_mem hname
    rw [strict_functionMark]
    cases hcs : name.toList with
    | nil => exact absurd hname (by simp [Identifier.isLegal, hcs])
    | cons c cs => exact strict_word (hcs ▸ hword) σ
  have hcode : Sealed (replaceAll Emit.functionMark name body) := by
    intro owed
    rw [replaceAll, String.toList_ofList, strict_replaceAfter (by simp [Emit.functionMark]) hput]
    exact hbody owed
  exact sealed_ite hcode (sealed_reindent hcode hindent)

end Blockwright.Scan
