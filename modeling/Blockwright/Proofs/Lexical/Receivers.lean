import Blockwright.Proofs.Lexical.Blocks
import Blockwright.Proofs.Lexical.Readings
import Blockwright.Proofs.Sockets.Fillings
/-!
# Receivers

A block that asks something of a list or a text appends an access to the code of a socket. Read as tokens,
the access stands apart from that code, unless the code ends with a whole number and the access begins with
a point: a whole number binds as tightly as a name, so it is not put in parentheses.
-/

namespace Blockwright

open Lexical Emit

/-- A socket whose code an access is appended to. -/
structure Receiver where
  socket : String := "VALUE"
  /-- The sockets that are read before it. -/
  earlier : List String := []
  /-- The precedence that the place has. -/
  outer : Order := Order.member
  /-- What stands for no code. -/
  fallback : String := "''"
  /-- Whether the access is negated. -/
  negated : Bool := false

/-- The kinds that append an access, each with the socket that it is appended to. With some options a kind
makes the code an argument of a helper. -/
def receivers : List (String × (Head → Option Receiver)) := [
  ("lists_length", fun _ => some { fallback := "[]" }),
  ("lists_isEmpty", fun _ => some { fallback := "[]", negated := true }),
  ("lists_indexOf", fun _ => some { earlier := ["FIND"], fallback := "[]" }),
  ("lists_getIndex", fun h => if h.fieldOr "WHERE" "FROM_START" = "RANDOM" then none else some { fallback := "[]" }),
  ("lists_sort", fun _ => some { socket := "LIST", outer := Order.functionCall, fallback := "[]" }),
  ("lists_split", fun h => some { socket := "INPUT", fallback := if h.field "MODE" = "SPLIT" then "''" else "[]" }),
  ("lists_reverse", fun _ => some { socket := "LIST", outer := Order.functionCall, fallback := "[]" }),
  ("text_length", fun _ => some { outer := Order.functionCall }),
  ("text_isEmpty", fun _ => some { negated := true }),
  ("text_indexOf", fun _ => some { earlier := ["FIND"] }),
  ("text_charAt", fun h => if h.fieldOr "WHERE" "FROM_START" = "RANDOM" then none else some {}),
  ("text_changeCase", fun h => if h.field "CASE" = "TITLECASE" then none else some { socket := "TEXT" }),
  ("text_trim", fun _ => some { socket := "TEXT" }),
  ("text_reverse", fun _ => some { socket := "TEXT" }),
  ("string_length", fun _ => some {})]

/-- The socket that the block appends an access to. -/
def Head.receiver? (h : Head) : Option Receiver := (receivers.lookup h.kind).bind (· h)

/-! ## Accesses -/

/-- Whether code begins with a bracket, or with a point and a name. -/
def startsAccess : List Char → Bool
  | '[' :: _ => true
  | '.' :: c :: _ => Spot.isMember c
  | _ => false

theorem startsAccess_append {cs : List Char} (h : startsAccess cs = true) (more : List Char) :
    startsAccess (cs ++ more) = true := by
  unfold startsAccess at h
  split at h
  · rfl
  · exact h
  · cases h

theorem exists_mark {cs : List Char} (h : startsAccess cs = true) :
    ∃ mark rest, cs = mark :: rest ∧ (mark = '[' ∨ mark = '.' ∧ ∃ c ∈ rest.head?, Spot.isMember c = true) := by
  unfold startsAccess at h
  split at h
  · exact ⟨_, _, rfl, .inl rfl⟩
  · exact ⟨_, _, rfl, .inr ⟨rfl, _, rfl, h⟩⟩
  · cases h

namespace Receiver

variable {settings : PassSettings} {s : Site} {a : Receiver} {p : Pass} {operand code : String}

/-- The operand is what the socket gives from this pass on, behind the sockets that are read before it. -/
def Gives (settings : PassSettings) (s : Site) (a : Receiver) (p : Pass) (operand : String) : Prop :=
  IsOperand operand ∧ ∃ codes p' q,
    Emit.Threaded (fun socket p code q => (s.valueOr socket Order.none "''").run settings p = (.ok code, q)) a.earlier p codes p' ∧
    (s.valueOr a.socket a.outer a.fallback).run settings p' = (.ok operand, q)

/-- The code begins with an access to what the socket gives from this pass on. -/
def Begins (settings : PassSettings) (s : Site) (a : Receiver) (p : Pass) (code : String) : Prop :=
  ∃ operand access, a.Gives settings s p operand ∧ code = bang a.negated ++ operand ++ access ∧
    startsAccess access.toList = true

theorem Gives.access (h : a.Gives settings s p operand) (hneg : a.negated = false) (access : String)
    (hstarts : startsAccess access.toList = true) : a.Begins settings s p (operand ++ access) := by
  refine ⟨operand, access, h, ?_, hstarts⟩
  rw [hneg, bang, if_neg Bool.false_ne_true, String.empty_append]

theorem Gives.negated (h : a.Gives settings s p operand) (hneg : a.negated = true) (access : String)
    (hstarts : startsAccess access.toList = true) : a.Begins settings s p ("!" ++ operand ++ access) := by
  refine ⟨operand, access, h, ?_, hstarts⟩
  rw [hneg, bang, if_pos rfl]

theorem Begins.append (h : a.Begins settings s p code) (more : String) : a.Begins settings s p (code ++ more) := by
  obtain ⟨operand, access, hgives, rfl, hstarts⟩ := h
  refine ⟨operand, access ++ more, hgives, String.append_assoc, ?_⟩
  rw [String.toList_append]
  exact startsAccess_append hstarts _

end Receiver

namespace Emit

variable {settings : PassSettings} {s : Site} {a : Receiver} {p : Pass}

/-- The action gives code that begins with an access to what the socket gives in its run. -/
def Accesses (settings : PassSettings) (s : Site) (a : Receiver) (x : Emit Result) : Prop :=
  ∀ p, p.Named → AssuresAt settings p x fun r => a.Begins settings s p r.code

/-- Behind the sockets that are read before it, the socket gives the operand. -/
theorem assures_gives (h : s.Fits settings) (hf : IsOperand a.fallback) (codes : List String) {q : Pass}
    (hearlier : Threaded (fun socket p code q => (s.valueOr socket Order.none "''").run settings p = (.ok code, q))
      a.earlier p codes q) (hq : q.Named) :
    AssuresAt settings q (s.valueOr a.socket a.outer a.fallback) (a.Gives settings s p) := by
  refine (h.valueOr _ _ hf q hq).ran.mono fun operand hoperand => ?_
  obtain ⟨hoperand, q', hrun⟩ := hoperand
  exact ⟨hoperand, codes, q, q', hearlier, hrun⟩

/-- The socket is read first. -/
theorem Accesses.of_valueOr (h : s.Fits settings) (hf : IsOperand a.fallback) (hfirst : a.earlier = []) {f : String → Emit Result}
    (hcode : ∀ p operand, Assures settings (f operand) fun r => a.Gives settings s p operand → a.Begins settings s p r.code) :
    Accesses settings s a (s.valueOr a.socket a.outer a.fallback >>= f) := by
  intro p hp
  refine (assures_gives h hf [] ?_ hp).bind fun operand q _ hq => hcode p operand q hq
  rw [hfirst]
  exact .nil

theorem accesses_listsLength (h : s.Fits settings) : Accesses settings s { fallback := "[]" } (listsLength s) := by
  refine .of_valueOr h isOperand_noItems rfl fun _ _ => .pure fun hc => ?_
  exact hc.access rfl _ (by decide)

theorem accesses_listsIsEmpty (h : s.Fits settings) :
    Accesses settings s { fallback := "[]", negated := true } (listsIsEmpty s) := by
  refine .of_valueOr h isOperand_noItems rfl fun _ _ => .pure fun hc => ?_
  exact hc.negated rfl _ (by decide)

/-- What is looked for is read first, then what it is looked for in. -/
theorem accesses_indexOf (h : s.Fits settings) {fallback : String} (hf : IsOperand fallback) :
    Accesses settings s { earlier := ["FIND"], fallback } (indexOf fallback s) := by
  intro p hp
  unfold indexOf
  split
  · next method hmethod =>
    have hstarts : startsAccess ("." ++ method).toList = true := by
      have hall : [("FIRST", "indexOf"), ("LAST", "lastIndexOf")].all
          (fun e => startsAccess ("." ++ e.2).toList) = true := by decide
      exact List.all_eq_true.1 hall (_, method) (mem_of_lookup hmethod)
    refine (h.valueOr _ _ isOperand_noText p hp).bind fun item q hitem hq => ?_
    refine (assures_gives (a := { earlier := ["FIND"], fallback }) h hf [item] (.cons hitem .nil) hq).bind
      fun sequence q' _ hq' => ?_
    have hcall : Receiver.Gives settings s { earlier := ["FIND"], fallback } p sequence →
        Receiver.Begins settings s { earlier := ["FIND"], fallback } p (sequence ++ "." ++ method ++ "(" ++ item ++ ")") := by
      intro hgives
      have hmember : sequence ++ "." ++ method = sequence ++ ("." ++ method) := String.append_assoc
      rw [hmember]
      exact (hgives.access rfl _ hstarts).append _ |>.append _ |>.append _
    refine (Assures.oneBased s).bind (fun oneBased => ?_) q' hq'
    split
    · exact .pure fun _ hq _ => (hcall hq).append _
    · exact .pure fun _ hq _ => hcall hq
  · exact Assures.unhandled "END" p hp

theorem accesses_taken {get remove mode : String} {getOrder removeOrder : Order} {P : Prop}
    (hg : P → a.Begins settings s p get) (hr : P → a.Begins settings s p remove) :
    Assures settings (taken s mode get getOrder remove removeOrder) fun r => P → a.Begins settings s p r.code := by
  unfold taken
  split
  · exact .pure hg
  · exact .pure hr
  · exact .pure fun h => (hr h).append _
  · exact .unhandled "MODE"

theorem accesses_listsGetIndex (h : s.Fits settings) (hplace : s.head.fieldOr "WHERE" "FROM_START" ≠ "RANDOM") :
    Accesses settings s { fallback := "[]" } (listsGetIndex s) := by
  unfold listsGetIndex
  dsimp only
  rw [if_neg hplace]
  refine .of_valueOr h isOperand_noItems rfl fun _ list => ?_
  split
  · exact accesses_taken (fun hl => hl.access rfl _ (by decide)) fun hl => hl.access rfl _ (by decide)
  · exact accesses_taken (fun hl => hl.access rfl ".slice(-1)[0]" (by decide)) fun hl => hl.access rfl _ (by decide)
  · refine (assures_index h _ _ _ _).bind fun i => ?_
    split
    · exact .pure fun _ hl => (hl.access rfl "[" (by decide)).append _ |>.append _
    · exact .pure fun _ hl => (hl.access rfl ".splice(" (by decide)).append _ |>.append _
    · exact .pure fun _ hl => (hl.access rfl ".splice(" (by decide)).append _ |>.append _
    · exact .unhandled "MODE"
  · refine (assures_index h _ _ _ _).bind fun i => ?_
    split
    · exact .pure fun _ hl => (hl.access rfl ".slice(" (by decide)).append _ |>.append _
    · exact .pure fun _ hl => (hl.access rfl ".splice(" (by decide)).append _ |>.append _
    · exact .pure fun _ hl => (hl.access rfl ".splice(" (by decide)).append _ |>.append _
    · exact .unhandled "MODE"
  · next hrandom => exact absurd hrandom hplace
  · exact .unhandled "WHERE"

theorem accesses_listsSort (h : s.Fits settings) :
    Accesses settings s { socket := "LIST", outer := Order.functionCall, fallback := "[]" } (listsSort s) := by
  refine .of_valueOr h isOperand_noItems rfl fun _ list => ?_
  dsimp only
  split
  · refine (Assures.provide _ _).bind fun fn => .pure fun _ hl => ?_
    exact (hl.access rfl ".slice().sort(" (by decide)).append _ |>.append _ |>.append _ |>.append _ |>.append _ |>.append _
  · exact .unhandled "TYPE"

/-- What stands for no value is put in behind the reading of the socket. -/
theorem gives_value (h : s.Fits settings) (socket : String) (outer : Order) (hp : p.Named) :
    AssuresAt settings p (s.value socket outer) fun input => ∀ fallback, IsOperand fallback →
      Receiver.Gives settings s { socket, outer, fallback } p (if input = "" then fallback else input) := by
  refine ((h.value socket outer) p hp).ran.mono fun input hinput fallback hf => ?_
  obtain ⟨hinput, q, hrun⟩ := hinput
  refine ⟨?_, [], p, q, .nil, (run_bind_of_ok hrun).trans rfl⟩
  split
  · exact hf
  · next hne => exact hinput.resolve_left hne

theorem accesses_listsSplit (h : s.Fits settings) :
    Accesses settings s { socket := "INPUT", fallback := if s.head.field "MODE" = "SPLIT" then "''" else "[]" }
      (listsSplit s) := by
  intro p hp
  generalize hfallback : (if s.head.field "MODE" = "SPLIT" then "''" else "[]") = fallback
  refine (gives_value h _ _ hp).bind fun input q _ hq => ?_
  refine (h.valueOr _ _ isOperand_noText).bind (fun delimiter => ?_) q hq
  split
  · next hmode =>
    rw [if_pos hmode] at hfallback
    subst hfallback
    exact .pure fun _ hi => ((hi _ isOperand_noText).access rfl ".split(" (by decide)).append _ |>.append _
  · next hmode =>
    rw [hmode, if_neg (by decide)] at hfallback
    subst hfallback
    exact .pure fun _ hi => ((hi _ isOperand_noItems).access rfl ".join(" (by decide)).append _ |>.append _
  · exact .unhandled "MODE"

theorem accesses_listsReverse (h : s.Fits settings) :
    Accesses settings s { socket := "LIST", outer := Order.functionCall, fallback := "[]" } (listsReverse s) := by
  refine .of_valueOr h isOperand_noItems rfl fun _ _ => .pure fun hc => ?_
  exact hc.access rfl _ (by decide)

theorem accesses_textLength (h : s.Fits settings) :
    Accesses settings s { outer := Order.functionCall } (textLength s) := by
  refine .of_valueOr h isOperand_noText rfl fun _ _ => .pure fun hc => ?_
  exact hc.access rfl _ (by decide)

theorem accesses_textIsEmpty (h : s.Fits settings) : Accesses settings s { negated := true } (textIsEmpty s) := by
  refine .of_valueOr h isOperand_noText rfl fun _ _ => .pure fun hc => ?_
  exact hc.negated rfl _ (by decide)

theorem accesses_textCharAt (h : s.Fits settings) (hplace : s.head.fieldOr "WHERE" "FROM_START" ≠ "RANDOM") :
    Accesses settings s {} (textCharAt s) := by
  unfold textCharAt
  dsimp only
  rw [if_neg hplace]
  refine .of_valueOr h isOperand_noText rfl fun _ code => ?_
  split
  · exact .pure fun hc => hc.access rfl _ (by decide)
  · exact .pure fun hc => hc.access rfl ".slice(-1)" (by decide)
  · refine (assures_index h _ _ _ _).bind fun i => .pure fun _ hc => ?_
    exact (hc.access rfl ".charAt(" (by decide)).append _ |>.append _
  · refine (assures_index h _ _ _ _).bind fun i => .pure fun _ hc => ?_
    exact (hc.access rfl ".slice(" (by decide)).append _ |>.append _
  · next hrandom => exact absurd hrandom hplace
  · exact .unhandled "WHERE"

theorem accesses_textChangeCase (h : s.Fits settings) (hcase : s.head.field "CASE" ≠ "TITLECASE") :
    Accesses settings s { socket := "TEXT" } (textChangeCase s) := by
  unfold textChangeCase
  split
  · refine .of_valueOr h isOperand_noText rfl fun _ _ => .pure fun hc => ?_
    exact hc.access rfl _ (by decide)
  · refine .of_valueOr h isOperand_noText rfl fun _ _ => .pure fun hc => ?_
    exact hc.access rfl _ (by decide)
  · next htitle => exact absurd htitle hcase
  · exact fun p hp => Assures.unhandled "CASE" p hp

theorem accesses_textTrim (h : s.Fits settings) : Accesses settings s { socket := "TEXT" } (textTrim s) := by
  unfold textTrim
  split
  · next call hcall =>
    have hstarts : trimCalls.all (fun e => startsAccess e.2.toList) = true := by decide
    refine .of_valueOr h isOperand_noText rfl fun _ code => .pure fun hc => ?_
    exact hc.access rfl _ (List.all_eq_true.1 hstarts (_, call) (mem_of_lookup hcall))
  · exact fun p hp => Assures.unhandled "MODE" p hp

theorem accesses_textReverse (h : s.Fits settings) : Accesses settings s { socket := "TEXT" } (textReverse s) := by
  refine .of_valueOr h isOperand_noText rfl fun _ _ => .pure fun hc => ?_
  exact hc.access rfl _ (by decide)

theorem accesses_stringLength (h : s.Fits settings) : Accesses settings s {} (stringLength s) := by
  refine .of_valueOr h isOperand_noText rfl fun _ _ => .pure fun hc => ?_
  exact hc.access rfl _ (by decide)

/-! ## All kinds -/

/-- The emitter of the kind uses an operand and appends an access to it, where the kind does. -/
def Appends (settings : PassSettings) (s : Site) (kind : String) (receiver : Head → Option Receiver) : Prop :=
  ∀ emitter a, standard.lookup kind = some emitter → receiver s.head = some a → ∀ p, p.Named →
    AssuresAt settings p (emitter s) fun r => r.Uses ∧ a.Begins settings s p r.code

theorem Appends.intro {kind : String} {emitter : Emitter} {receiver : Head → Option Receiver}
    (hfound : standard.lookup kind = some emitter) (huses : Assures settings (emitter s) Result.Uses)
    (haccesses : ∀ a, receiver s.head = some a → Accesses settings s a (emitter s)) :
    Appends settings s kind receiver := by
  intro emitter' a hfound' ha p hp
  obtain rfl := Option.some.inj (hfound.symm.trans hfound')
  exact (huses p hp).and (haccesses a ha p hp)

theorem appends_receivers (h : s.Fits settings) : ∀ e ∈ receivers, Appends settings s e.1 e.2 := by
  simp only [receivers, List.forall_mem_cons]
  refine ⟨?_, ?_, ?_, ?_, ?_, ?_, ?_, ?_, ?_, ?_, ?_, ?_, ?_, ?_, ?_, by simp⟩
  · exact .intro rfl (uses_listsLength h) fun _ ha => Option.some.inj ha ▸ accesses_listsLength h
  · exact .intro rfl (uses_listsIsEmpty h) fun _ ha => Option.some.inj ha ▸ accesses_listsIsEmpty h
  · exact .intro rfl (uses_indexOf h isOperand_noItems) fun _ ha =>
      Option.some.inj ha ▸ accesses_indexOf h isOperand_noItems
  · refine .intro rfl (uses_listsGetIndex h) fun a ha => ?_
    split at ha
    · cases ha
    · next hplace => exact Option.some.inj ha ▸ accesses_listsGetIndex h hplace
  · exact .intro rfl (uses_listsSort h) fun _ ha => Option.some.inj ha ▸ accesses_listsSort h
  · exact .intro rfl (uses_listsSplit h) fun _ ha => Option.some.inj ha ▸ accesses_listsSplit h
  · exact .intro rfl (uses_listsReverse h) fun _ ha => Option.some.inj ha ▸ accesses_listsReverse h
  · exact .intro rfl (uses_textLength h) fun _ ha => Option.some.inj ha ▸ accesses_textLength h
  · exact .intro rfl (uses_textIsEmpty h) fun _ ha => Option.some.inj ha ▸ accesses_textIsEmpty h
  · exact .intro rfl (uses_indexOf h isOperand_noText) fun _ ha =>
      Option.some.inj ha ▸ accesses_indexOf h isOperand_noText
  · refine .intro rfl (uses_textCharAt h) fun a ha => ?_
    split at ha
    · cases ha
    · next hplace => exact Option.some.inj ha ▸ accesses_textCharAt h hplace
  · refine .intro rfl (uses_textChangeCase h) fun a ha => ?_
    split at ha
    · cases ha
    · next hcase => exact Option.some.inj ha ▸ accesses_textChangeCase h hcase
  · exact .intro rfl (uses_textTrim h) fun _ ha => Option.some.inj ha ▸ accesses_textTrim h
  · exact .intro rfl (uses_textReverse h) fun _ ha => Option.some.inj ha ▸ accesses_textReverse h
  · exact .intro rfl (uses_stringLength h) fun _ ha => Option.some.inj ha ▸ accesses_stringLength h

end Emit

/-! ## Tokens -/

/-- Where an operand is used, code has tokens unless there is a carriage return in it. -/
theorem Result.Uses.isSome_tokens? {r : Result} (h : r.Uses) :
    (tokens? r.code).isSome = true ↔ '\r' ∉ r.code.toList := by
  cases h with
  | value hcode => exact Lexical.isSome_tokens? (hcode.leads (.blank false) rfl) fun m hm => (Mode.of_closes hm).1
  | statement hcode =>
    refine Lexical.isSome_tokens? ((Woven.code hcode |>.addLit [';', '\n']).leads (by decide) (.blank false) rfl) ?_
    rintro m rfl
    rfl

namespace Receiver

/-- The code of the socket as it stands in its place. -/
def operand (a : Receiver) (filling : Option (String × Order)) : String := inPlace a.outer a.fallback filling

/-- An access to that code, which begins with the mark. -/
def code (a : Receiver) (filling : Option (String × Order)) (mark : Char) (rest : List Char) : String :=
  bang a.negated ++ a.operand filling ++ String.ofList (mark :: rest)

/-- The tokens of the access are those of the operand, behind an exclamation mark if it is negated, then the
mark, and then more. -/
def StandsApart (a : Receiver) (filling : Option (String × Order)) (mark : Char) (rest : List Char) : Prop :=
  ∃ ts us, tokens? (a.operand filling) = some ts ∧ tokens? (a.code filling mark rest) = some us ∧
    (if a.negated then ["!"] else []) ++ ts ++ [String.singleton mark] <+: us

/-- The last token of the operand is a number without a point or an exponent. -/
def EndsWhole (a : Receiver) (filling : Option (String × Order)) : Prop :=
  ∃ ts, tokens? (a.operand filling) = some ts ∧ endsWhole ts = true

theorem standsApart_iff_of_uses {a : Receiver} {filling : Option (String × Order)} {mark : Char} {rest : List Char}
    {r : Result} (hoperand : IsOperand (a.operand filling)) (hr : r.Uses) (hcode : r.code = a.code filling mark rest)
    (hmark : mark = '[' ∨ mark = '.' ∧ ∃ c ∈ rest.head?, Spot.isMember c = true) :
    a.StandsApart filling mark rest ↔
      '\r' ∉ (a.code filling mark rest).toList ∧ ¬(mark = '.' ∧ a.EndsWhole filling) := by
  have hsome := hr.isSome_tokens?
  rw [hcode] at hsome
  rw [← hsome]
  constructor
  · rintro ⟨ts, us, hts, hus, hprefix⟩
    obtain ⟨ts', hts', hiff⟩ := tokens_access hoperand a.negated hmark hus
    obtain rfl := Option.some.inj (hts.symm.trans hts')
    refine ⟨by rw [hus]; rfl, ?_⟩
    rintro ⟨hpoint, ts', hts', hwhole⟩
    obtain rfl := Option.some.inj (hts.symm.trans hts')
    exact hiff.1 hprefix ⟨hpoint, hwhole⟩
  · rintro ⟨htokens, hwhole⟩
    obtain ⟨us, hus⟩ := Option.isSome_iff_exists.1 htokens
    obtain ⟨ts, hts, hiff⟩ := tokens_access hoperand a.negated hmark hus
    exact ⟨ts, us, hts, hus, hiff.2 fun hboth => hwhole ⟨hboth.1, ts, hts, hboth.2⟩⟩

end Receiver

/-! ## Blocks -/

namespace Block

variable {settings : PassSettings} {b : Block} {a : Receiver} {p q : Pass}

/-- Between its comments and what is chained behind it, a block whose kind appends an access has the code of its
socket in place and then the access. The socket is read from the pass in which the block is emitted, behind the
sockets that the kind reads before it. Read as tokens, the access stands apart exactly when no carriage return
stands in the code and no whole number in front of the point. -/
theorem standsApart_iff (hplain : b.Plain settings) (henabled : b.head.disabled = false)
    (ha : b.head.receiver? = some a) (hnamed : p.Named) {thisOnly : Bool} {r : Result}
    (hrun : (b.emit standard thisOnly).run settings p = (.ok r, q)) :
    ∃ others p' filling q' mark rest behind,
      Emit.Threaded (b.Filling standard settings) a.earlier p others p' ∧ b.Filling standard settings a.socket p' filling q' ∧
      (mark = '.' ∨ mark = '[') ∧ r.code = commentLines b ++ a.code filling mark rest ++ behind ∧
      (a.StandsApart filling mark rest ↔
        '\r' ∉ (a.code filling mark rest).toList ∧ ¬(mark = '.' ∧ a.EndsWhole filling)) := by
  obtain ⟨emitter, own, p₁, hfound, hown, hclean, -, behind, rfl⟩ := exists_rest henabled hnamed.sound hrun
  obtain ⟨receiver, hreceiver, ha⟩ := Option.bind_eq_some_iff.1 ha
  have hassured := (appends_receivers hplain.fits_site _ (mem_of_lookup hreceiver) emitter a hfound ha p hnamed).2
  rw [hown] at hassured
  obtain ⟨-, hvalue⟩ := hassured hclean
  obtain ⟨huses, operand, access, ⟨hoperand, codes, p', q', hearlier, hsocket⟩, hcode, hstarts⟩ := hvalue own rfl
  obtain ⟨others, hothers, -⟩ := exists_fillings hearlier
  obtain ⟨filling, hfilling, rfl⟩ := exists_filling hsocket
  obtain ⟨mark, rest, haccess, hmark⟩ := exists_mark hstarts
  have hcode' : own.code = a.code filling mark rest := by
    rw [hcode, Receiver.code, ← haccess, String.ofList_toList]
    rfl
  refine ⟨others, p', filling, q', mark, rest, behind, hothers, hfilling, ?_, ?_,
    Receiver.standsApart_iff_of_uses hoperand huses hcode' hmark⟩
  · rcases hmark with rfl | ⟨rfl, -⟩
    · exact .inr rfl
    · exact .inl rfl
  · rw [← hcode']
    cases huses <;> rfl

/-! ## The length of a number -/

/-- The length of what stands as a list for a whole number. -/
def measuring (k : Int) : Block := ⟨{ kind := "lists_length" }, [⟨"VALUE", .value, some (literalOf k)⟩], none⟩

theorem plain_measuring (k : Int) : (measuring k).Plain settings := by
  have hblocks : (measuring k).blocks = [measuring k, literalOf k] := by
    simp [measuring, literalOf, blocks, socketBlocks, nextBlocks]
  constructor <;> rw [hblocks] <;> simp [measuring, literalOf, Holds]

/-- A literal gives the number that it reads as. -/
theorem eq_of_run_literalOf {k : Int} (hk : ∃ s m e, Double.ofInt k = .finite s m e) {r : Result}
    (hrun : ((literalOf k).emit standard false).run settings p = (.ok r, q)) :
    r = .value (Double.ofInt k).format (if (Double.ofInt k).isNegative then Order.unaryNegation else Order.atomic) := by
  obtain ⟨s, m, e, hfinite⟩ := hk
  have htext : (literalOf k).head.field "NUM" = Text.ofInt k := by simp [literalOf, Head.field, Head.field?, Head.written?]
  have hread := Double.read_ofInt hfinite
  have hne : Text.trim (Text.ofInt k) ≠ "" := by
    intro hempty
    rw [hempty] at hread
    cases hread
  have hnumber : mathNumber ((literalOf k).site standard) =
      pure (.value (Double.ofInt k).format (if (Double.ofInt k).isNegative then Order.unaryNegation else Order.atomic)) := by
    have hhead : ((literalOf k).site standard).head = (literalOf k).head := rfl
    unfold mathNumber
    dsimp only
    rw [hhead, htext, if_neg hne, hread]
  rw [emit_of_enabled rfl] at hrun
  obtain ⟨emitter, own, p', hfound, hown, hcompleted⟩ := Site.exists_of_run_emit_completed hrun
  obtain rfl : mathNumber = emitter := Option.some.inj hfound
  rw [hnumber] at hown
  obtain ⟨rfl, rfl⟩ := run_pure_eq_ok_iff.1 hown
  obtain ⟨next, p'', hnext, hpure⟩ := run_bind_eq_ok_iff.1 hcompleted
  obtain ⟨rfl, -⟩ := run_pure_eq_ok_iff.1 hnext
  obtain ⟨rfl, -⟩ := run_pure_eq_ok_iff.1 hpure
  have hcomments : commentLines ((literalOf k).site standard).block = "" := rfl
  rw [hcomments, String.empty_append, String.append_empty]

theorem filling_measuring {k : Int} (hk : ∃ s m e, Double.ofInt k = .finite s m e) {filling : Option (String × Order)}
    (h : (measuring k).Filling standard settings "VALUE" p filling q) :
    filling = some ((Double.ofInt k).format, if (Double.ofInt k).isNegative then Order.unaryNegation else Order.atomic) := by
  cases h with
  | code hplugged hrun hne =>
    obtain rfl := Option.some.inj hplugged
    cases eq_of_run_literalOf hk hrun
    rfl
  | noCode hplugged hrun hempty =>
    obtain rfl := Option.some.inj hplugged
    obtain rfl := eq_of_run_literalOf hk hrun
    rcases hempty with hhandled | ⟨order, hvalue⟩
    · cases hhandled
    · exact absurd (Result.value.inj hvalue).1 (isOperand_format _).ne_empty
  | noBlock hplugged => cases hplugged

theorem named_empty : ({ names := {} } : Pass).Named := ⟨Names.sound_new [], by simp⟩

theorem exists_run_measuring : (∃ q, ((measuring (-5)).emit standard true).run {} { names := {} } =
      (.ok (.value "(-5).length" Order.member), q)) ∧
    ∃ q, ((measuring 5).emit standard true).run {} { names := {} } = (.ok (.value "5.length" Order.member), q) :=
  ⟨⟨_, Prod.ext (by decide +kernel) rfl⟩, ⟨_, Prod.ext (by decide +kernel) rfl⟩⟩

/-- A negative number is put in parentheses, so the length of minus five stands apart. -/
theorem minusFive_standsApart : ∃ q rest,
    ((measuring (-5)).emit standard true).run {} { names := {} } = (.ok (.value "(-5).length" Order.member), q) ∧
      Receiver.StandsApart { fallback := "[]" } (some ("-5", Order.unaryNegation)) '.' rest := by
  obtain ⟨q, hrun⟩ := exists_run_measuring.1
  obtain ⟨others, p', filling, q', mark, rest, behind, -, hfilling, hmark, hcode, hiff⟩ :=
    standsApart_iff (plain_measuring (-5)) rfl rfl named_empty hrun
  have hfive : (Double.ofInt (-5)).format = "-5" ∧ (Double.ofInt (-5)).isNegative = true := by decide +kernel
  obtain rfl := filling_measuring ⟨_, _, _, rfl⟩ hfilling
  rw [hfive.1, hfive.2, if_pos rfl] at hcode hiff
  have hoperand : Receiver.operand { fallback := "[]" } (some ("-5", Order.unaryNegation)) = "(-5)" := by decide
  have htokens : tokens? "(-5)" = some ["(", "-", "5", ")"] := by decide +kernel
  have hcomments : commentLines (measuring (-5)) = "" := by decide +kernel
  rw [hcomments, String.empty_append] at hcode
  have hpoint : mark = '.' := by
    have hfifth := congrArg (fun code => code.toList[4]?) hcode
    simpa [Receiver.code, hoperand, Result.code, bang, eq_comm] using hfifth
  subst hpoint
  refine ⟨q, rest, hrun, hiff.2 ⟨fun hreturn => ?_, ?_⟩⟩
  · have hin : '\r' ∈ (Result.value "(-5).length" Order.member).code.toList := by
      rw [hcode, String.toList_append]
      exact List.mem_append_left _ hreturn
    exact absurd hin (by decide)
  · rintro ⟨-, ts, hts, hend⟩
    rw [hoperand, htokens] at hts
    obtain rfl := Option.some.inj hts
    exact absurd hend (by decide)

/-- A whole number that is not negative stands without parentheses and takes the point for its own. -/
theorem five_swallows_point : ∃ q q',
    ((measuring 5).emit standard true).run {} { names := {} } = (.ok (.value "5.length" Order.member), q) ∧
      (measuring 5).Filling standard {} "VALUE" { names := {} } (some ("5", Order.atomic)) q' ∧
      tokens? "5" = some ["5"] ∧ tokens? "5.length" = some ["5.", "length"] ∧
      ¬Receiver.StandsApart { fallback := "[]" } (some ("5", Order.atomic)) '.' "length".toList := by
  obtain ⟨q, hrun⟩ := exists_run_measuring.2
  have hliteral : (((literalOf 5).emit standard false).run {} { names := {} }).1 = .ok (.value "5" Order.atomic) := by
    decide +kernel
  have hoperand : tokens? "5" = some ["5"] := by decide +kernel
  have hlength : tokens? "5.length" = some ["5.", "length"] := by decide +kernel
  refine ⟨q, _, hrun, .code rfl (Prod.ext hliteral rfl) (by decide), hoperand, hlength, ?_⟩
  rintro ⟨ts, us, hts, hus, hprefix⟩
  obtain rfl : ["5"] = ts := Option.some.inj (hoperand.symm.trans hts)
  obtain rfl : ["5.", "length"] = us := Option.some.inj (hlength.symm.trans hus)
  exact absurd hprefix (by decide)

end Block
end Blockwright
