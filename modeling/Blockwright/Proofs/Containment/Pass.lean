import Blockwright.Proofs.Emit.Ends
import Blockwright.Proofs.Names.Requests
import Blockwright.Proofs.Text.Annotated
import Blockwright.Proofs.Text.Sealed
import Blockwright.Proofs.Text.Utf8
/-!
# Contained passes

A pass is contained while every name it has given is sealed and all code it has put in front of the
program is sealed and begins with a line that is not blank. The actions that emitters are made of keep
it so and give back sealed code.
-/

namespace Blockwright

open Scan

/-- Code that may stand in front of a program: it is sealed, and its first line is not blank. -/
structure Definable (code : String) : Prop where
  sealed : Sealed code
  opens : Text.opens code = true

/-- The names of the pass are those of a sound registry, and what it has written is sealed. A
helper without a name makes no sealed code, but then a failure is on record. -/
structure Pass.Contained (p : Pass) : Prop where
  sound : p.names.Sound
  helpers : ∀ entry ∈ p.helpers, Sealed entry.2.name
  definitions : p.failure? = none → ∀ d ∈ p.definitions, Definable d.2

/-- The settings under which programs are contained: indentation with spaces and tabs, and no loop trap. -/
structure PassSettings.Blank (settings : PassSettings) : Prop where
  indent : ∀ c ∈ settings.indent.toList, c = ' ' ∨ c = '\t'
  loopTrap : settings.loopTrap = ""

theorem PassSettings.Blank.sealed_indent {settings : PassSettings} (h : settings.Blank) : Sealed settings.indent :=
  sealed_plain fun c hc => by rcases h.indent c hc with rfl | rfl <;> decide

namespace Pass

theorem mem_setDefinition {definitions : List (RawText × String)} {key : RawText} {code : String}
    {d : RawText × String} (h : d ∈ setDefinition definitions key code) : d ∈ definitions ∨ d.2 = code := by
  unfold setDefinition at h
  split at h
  · obtain ⟨e, he, rfl⟩ := List.mem_map.1 h
    split
    · exact .inr rfl
    · exact .inl he
  · rcases List.mem_append.1 h with h | h
    · exact .inl h
    · exact .inr (by rw [List.mem_singleton.1 h])

/-- A later registry of the same pass. -/
theorem Contained.withNames {p : Pass} (h : p.Contained) {names : Names} (hsound : names.Sound)
    (hgrows : p.names.Grows names) : ({ p with names } : Pass).Contained where
  sound := hsound
  helpers := h.helpers
  definitions hf := by
    rw [failure?_eq_none] at hf
    exact h.definitions (failure?_eq_none.2 ⟨hf.1, hgrows.failure_none hf.2⟩)

/-- Code in front of the program. -/
theorem Contained.define {p : Pass} (h : p.Contained) (key : RawText) {code : String}
    (hcode : p.failure? = none → Definable code) :
    ({ p with definitions := setDefinition p.definitions key code } : Pass).Contained where
  sound := h.sound
  helpers := h.helpers
  definitions hf d hd := by
    rcases mem_setDefinition hd with hd | hd
    · exact h.definitions hf d hd
    · rw [hd]; exact hcode hf

end Pass

theorem Names.Answered.sealed {answer : String × Names} (h : Names.Answered answer) : Sealed answer.1 := by
  rcases h with h | ⟨h, -⟩
  · exact sealed_of_isLegal h
  · rw [h]; exact sealed_empty

namespace Emit

variable {settings : PassSettings}

/-- Started in a contained pass, an action that succeeds leaves one, with a value that satisfies
`Q`. -/
abbrev Safe {α : Type} (settings : PassSettings) (x : Emit α) (Q : α → Prop) : Prop :=
  Keeps settings Pass.Contained x Q

/-- An action that gives back sealed code. -/
abbrev SafeCode (settings : PassSettings) (x : Emit String) : Prop := Safe settings x Sealed

/-- An action whose result has sealed code. -/
abbrev SafeResult (settings : PassSettings) (x : Emit Result) : Prop := Safe settings x fun r => Sealed r.code

theorem safe_value {code : String} {order : Order} (h : Sealed code) :
    SafeResult settings (pure (.value code order)) := .pure h

theorem safe_statement {code : String} (h : Sealed code) : SafeResult settings (pure (.statement code)) := .pure h

theorem safe_name (key : RawText) (category : Category) : SafeCode settings (name key category) := by
  intro p hp
  refine (ends_modifyGet _).2 ⟨?_, (hp.sound.answered_get key category).sealed⟩
  exact hp.withNames (hp.sound.serve (.get key category)) (Names.grows_get p.names key category)

theorem safe_distinctVariable (seed : RawText) : SafeCode settings (distinctVariable seed) := by
  intro p hp
  refine (ends_modifyGet _).2 ⟨?_, (Names.answered_distinct p.names seed .variable).sealed⟩
  exact hp.withNames (hp.sound.serve (.distinct seed .variable)) (Names.grows_distinct p.names seed .variable)

theorem safe_define (key : RawText) {code : String} (h : Definable code) :
    Safe settings (define key code) fun _ => True :=
  fun _ hp => (ends_modify _).2 ⟨hp.define key fun _ => h, trivial⟩

/-- The code of a helper begins as its body does, wherever the mark stands in it. -/
theorem opens_helperCode {body : String} (h : body.toList.head? = some 'f') (indent name : String) :
    Text.opens (helperCode indent name body) = true := by
  obtain ⟨rest, hbody⟩ := List.head?_eq_some_iff.1 h
  have hcode : (Text.replaceAll functionMark name body).toList
      = 'f' :: Text.replaceAfter functionMark.toList name.toList 0 rest := by
    rw [Text.replaceAll, String.toList_ofList, hbody]
    rfl
  unfold helperCode
  dsimp only
  split
  · rw [Text.opens, hcode]
    rfl
  · rw [Text.opens, Text.reindent, String.toList_ofList, hcode]
    rfl

theorem definable_helperCode {indent name body : String} (hname : Identifier.isLegal name = true)
    (hindent : ∀ c ∈ indent.toList, c = ' ' ∨ c = '\t') (h : Sealed body) (hstart : body.toList.head? = some 'f') :
    Definable (helperCode indent name body) :=
  ⟨sealed_helperCode hname hindent h, opens_helperCode hstart indent name⟩

theorem safe_provideText (hs : settings.Blank) (desired : RawText) {body : RawText} (h : Sealed body.text)
    (hstart : body.text.toList.head? = some 'f') : SafeCode settings (provideText desired body) := by
  intro p hp
  unfold provideText
  rw [ends_bind, ends_read, ends_modifyGet]
  cases hfound : p.helpers.lookup desired with
  | some helper =>
    have hname : Sealed helper.name := hp.helpers _ (mem_of_lookup hfound)
    dsimp only
    split
    · refine ⟨⟨hp.sound, hp.helpers, fun hf => ?_⟩, hname⟩
      exact absurd hf (by cases h : p.failure <;> simp [Pass.failure?])
    · exact ⟨hp, hname⟩
  | none =>
    dsimp only
    have hanswer := Names.answered_distinct p.names desired .procedure
    have hnames := hp.withNames (hp.sound.serve (.distinct desired .procedure))
      (Names.grows_distinct p.names desired .procedure)
    refine ⟨⟨hnames.sound, ?_, ?_⟩, hanswer.sealed⟩
    · intro entry he
      rcases List.mem_append.1 he with he | he
      · exact hp.helpers entry he
      · rw [List.mem_singleton.1 he]; exact hanswer.sealed
    · -- without a name the code of the helper need not be sealed, but then the pass has failed
      refine (hnames.define desired fun hf => ?_).definitions
      rcases hanswer with hlegal | ⟨-, hfailed⟩
      · exact definable_helperCode hlegal hs.indent h hstart
      · exact absurd (Pass.failure?_eq_none.1 hf).2 hfailed

theorem safe_provide (hs : settings.Blank) (desired : String) {body : List String}
    (h : Sealed (Text.joinWith "\n" body)) (hstart : (Text.joinWith "\n" body).toList.head? = some 'f') :
    SafeCode settings (provide desired body) :=
  safe_provideText hs desired (by rwa [RawText.text_ofString]) (by rwa [RawText.text_ofString])

end Emit

/-! ## Sites -/

/-- Emitting what the block holds is safe. -/
structure Site.Safe (settings : PassSettings) (s : Site) : Prop where
  plugs : ∀ socket plug, s.plug? socket = some plug → Emit.SafeResult settings plug.emit
  next : ∀ plug, s.next = some plug → Emit.SafeResult settings plug.emit

namespace Site.Safe

open Emit

variable {settings : PassSettings} {s : Site}

theorem value (h : s.Safe settings) (socket : String) (outer : Order) :
    SafeCode settings (s.value socket outer) := by
  unfold Site.value
  cases hp : s.plug? socket with
  | none => exact .pure sealed_empty
  | some plug =>
    refine (h.plugs socket plug hp).bind fun r hr => ?_
    cases r with
    | handled => exact .pure sealed_empty
    | statement code => exact .failIn
    | value code order => exact .pure (sealed_ite sealed_empty (sealed_wrap hr outer order))

theorem valueOr (h : s.Safe settings) (socket : String) (outer : Order) {fallback : String}
    (hf : Sealed fallback) : SafeCode settings (s.valueOr socket outer fallback) :=
  (h.value socket outer).bind fun _ hcode => .pure (sealed_ite hf hcode)

theorem statements (h : s.Safe settings) (hs : settings.Blank) (socket : String) :
    SafeCode settings (s.statements socket) := by
  unfold Site.statements
  cases hp : s.plug? socket with
  | none => exact .pure sealed_empty
  | some plug =>
    refine (h.plugs socket plug hp).bind fun r hr => ?_
    cases r with
    | handled => exact .pure sealed_empty
    | statement code =>
      dsimp only
      split
      · exact .pure sealed_empty
      · refine Keeps.indent.bind fun indent hi => ?_
        subst hi
        exact .pure (sealed_prefixLines hr hs.indent)
    | value code order => exact .failIn

theorem nextCode (h : s.Safe settings) : SafeCode settings s.nextCode := by
  unfold Site.nextCode
  cases hp : s.next with
  | none => exact .pure sealed_empty
  | some plug =>
    refine (h.next plug hp).bind fun r hr => ?_
    cases r with
    | handled => exact .pure sealed_empty
    | statement code => exact .pure hr
    | value code order => exact .failIn

theorem dress (h : s.Safe settings) {code : String} (hcode : Sealed code) (thisOnly : Bool) :
    SafeCode settings (s.dress code thisOnly) := by
  have hdressed : ∀ next, Sealed next → Sealed (commentLines s.block ++ code ++ next) :=
    fun _ hn => ((sealed_commentLines s.block).append hcode).append hn
  unfold Site.dress
  cases thisOnly with
  | true => exact .pure (hdressed _ sealed_empty)
  | false => exact h.nextCode.bind fun _ hn => .pure (hdressed _ hn)

end Site.Safe

theorem Emit.safe_unhandled {settings : PassSettings} {α : Type} {Q : α → Prop} (s : Site) (field : String) :
    Safe settings (s.unhandled field : Emit α) Q := .fail

theorem Emit.safe_variableName {settings : PassSettings} (s : Site) (field : String) :
    SafeCode settings (s.variableName field) := safe_name _ _

theorem Emit.safe_oneBased {settings : PassSettings} (s : Site) : Safe settings s.oneBased fun _ => True :=
  Keeps.read.bind fun _ _ => .pure trivial

end Blockwright
