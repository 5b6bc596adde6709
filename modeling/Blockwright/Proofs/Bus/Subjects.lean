import Blockwright.Bus.Connection
import Blockwright.Proofs.Json.Slices
import Blockwright.Proofs.Number.Wholes
/-!
# Subjects name projects

A subject is written around the text of a project and read by cutting off what stands before it and
behind it. Both ways agree: the project of a subject is the one word it was written for, so a message
reaches the project its subject names and no other, whatever its text says. A payload is no event
when it is no document, or when the reader of one of its members refuses a value there; then nothing
is handed on.
-/

namespace Blockwright

variable {lead subject project : String} {payload : Bytes}

/-! ## What stands before and behind a text -/

namespace Text

theorem dropStart?_eq_some_iff {start cs rest : List Char} : dropStart? start cs = some rest ↔ cs = start ++ rest := by
  constructor
  · intro h
    rw [dropStart?] at h
    split at h
    · rename_i hstart
      obtain ⟨tail, rfl⟩ := List.isPrefixOf_iff_prefix.1 hstart
      rw [List.drop_left] at h
      rw [Option.some.inj h]
    · cases h
  · rintro rfl
    exact dropStart?_append start rest

end Text

namespace Subject

theorem dropEnd?_eq_some_iff {last cs front : List Char} : dropEnd? last cs = some front ↔ cs = front ++ last := by
  simp only [dropEnd?, Option.map_eq_some_iff, Text.dropStart?_eq_some_iff]
  constructor
  · rintro ⟨front, hcs, rfl⟩
    rw [← List.reverse_reverse cs, hcs, List.reverse_append, List.reverse_reverse]
  · rintro rfl
    exact ⟨front.reverse, List.reverse_append, List.reverse_reverse front⟩

/-! ## Reading a subject -/

/-- A subject that was written for a project, which is one word. -/
structure IsAbout (lead subject project : String) : Prop where
  ne_empty : project ≠ ""
  no_dot : '.' ∉ project.toList
  written : subject = ofProject lead project

theorem toList_ofProject (lead project : String) :
    (ofProject lead project).toList = (lead ++ middle).toList ++ (project.toList ++ ending.toList) := by
  simp only [ofProject, String.toList_append, List.append_assoc]

/-- The lead and the project decide each other's place, also where they contain dots. -/
theorem ofProject_injective (lead : String) : Function.Injective (ofProject lead) := by
  intro project other h
  have hchars := congrArg String.toList h
  rw [toList_ofProject, toList_ofProject, List.append_cancel_left_eq, List.append_cancel_right_eq] at hchars
  exact String.toList_injective hchars

/-- A subject is read as a project exactly when it was written for it. -/
theorem project_eq_ok_iff : Subject.project lead subject = .ok project ↔ IsAbout lead subject project := by
  constructor
  · intro h
    rw [Subject.project] at h
    split at h
    · cases h
    · rename_i rest hrest
      split at h
      · rename_i word hword
        split at h
        · cases h
        · rename_i hone
          have hname : String.ofList word = project := Except.ok.inj h
          have hsubject := Text.dropStart?_eq_some_iff.1 hrest
          rw [dropEnd?_eq_some_iff.1 hword] at hsubject
          simp only [Bool.or_eq_true, List.isEmpty_iff, List.contains_iff_mem, not_or] at hone
          subst hname
          refine ⟨fun hempty => hone.1 ?_, ?_, ?_⟩
          · simpa using congrArg String.toList hempty
          · rw [String.toList_ofList]
            exact hone.2
          · refine String.toList_injective ?_
            rw [toList_ofProject, String.toList_ofList, hsubject]
      · cases h
  · rintro ⟨hne, hdot, rfl⟩
    have hword : project.toList ≠ [] := fun h => hne (String.toList_injective h)
    rw [Subject.project, toList_ofProject, Text.dropStart?_append]
    dsimp only
    rw [dropEnd?_eq_some_iff.2 rfl]
    simp [hword, hdot]

end Subject

/-! ## What a payload holds -/

namespace Json.Reader

variable {α : Type} {r : Reader α} {ms : List (String × Json)} {name : String} {zero : α}

/-- Whether a value is refused does not depend on the one held before. -/
def Steady (r : Reader α) : Prop := ∀ old old' j, r old j = none → r old' j = none

theorem Steady.eq_none_iff (h : Steady r) (old old' : α) (j : Json) : r old j = none ↔ r old' j = none :=
  ⟨h old old' j, h old' old j⟩

theorem steady_string : Steady string := by
  intro old old' j h
  cases j with
  | null | str => cases h
  | _ => rfl

theorem steady_int : Steady int := by
  intro old old' j h
  cases j with
  | null => cases h
  | _ => exact h

/-- The members of a name are read unless the value of one is refused. -/
theorem Steady.field_eq_none_iff (h : Steady r) :
    field ms name r zero = none ↔ ∃ j ∈ valuesOf ms name, r zero j = none := by
  rw [field]
  generalize valuesOf ms name = js
  -- each value is read into what the ones before it left
  suffices hall : ∀ old, js.foldlM r old = none ↔ ∃ j ∈ js, r zero j = none from hall zero
  induction js with
  | nil => simp
  | cons j js ih =>
    intro old
    rw [List.foldlM_cons, List.exists_mem_cons_iff, h.eq_none_iff zero old]
    cases r old j with
    | none => exact iff_of_true rfl (.inl rfl)
    | some x => simpa using ih x

end Json.Reader

namespace GeneratedEvent

open Json (Reader)

variable {ms : List (String × Json)}

theorem bind_eq_none_iff_or {α β : Type} {x : Option α} {f : α → Option β} {P : Prop}
    (h : ∀ a, f a = none ↔ P) : x.bind f = none ↔ x = none ∨ P := by
  cases x with
  | none => simp
  | some a => simp [h a]

theorem steady_natReader : Reader.Steady natReader := by
  intro old old' j h
  cases j with
  | null => cases h
  | _ => exact h

/-- The members of an event but for its time, each with the values that are refused for it. -/
def refusals : List (String × (Json → Prop)) := [
  ("projectId", fun j => Reader.string "" j = none), ("generationId", fun j => natReader 0 j = none),
  ("userId", fun j => Reader.string "" j = none), ("checksum", fun j => Reader.string "" j = none),
  ("code", fun j => Reader.string "" j = none), ("error", fun j => Reader.string "" j = none),
  ("durationMs", fun j => Reader.int 0 j = none)]

/-- One of the members of an event has a value that is refused for it. -/
def Misread (ms : List (String × Json)) : Prop := ∃ member ∈ refusals, ∃ j ∈ Json.valuesOf ms member.1, member.2 j

theorem reader_eq_none_iff : reader {} (.object ms) = none ↔ Misread ms := by
  have hsteps : reader {} (.object ms) = none ↔ _ :=
    bind_eq_none_iff_or fun _ => bind_eq_none_iff_or fun _ => bind_eq_none_iff_or fun _ =>
      bind_eq_none_iff_or fun _ => bind_eq_none_iff_or fun _ => bind_eq_none_iff_or fun _ =>
        bind_eq_none_iff_or fun _ => iff_false_intro (Option.some_ne_none _)
  rw [hsteps, Reader.steady_int.field_eq_none_iff, steady_natReader.field_eq_none_iff]
  simp only [Reader.steady_string.field_eq_none_iff, Misread, refusals, List.exists_mem_cons_iff, List.not_mem_nil, false_and,
    exists_false]

/-- A payload holds no event exactly when it is no JSON document, when the document is neither an object nor null, when
a member of the object has a value that is refused, or when one of its times is not written as a timestamp. -/
theorem ofPayload?_eq_none_iff :
    ofPayload? payload = none ↔ Json.parse? payload = none ∨
      (∃ j, Json.parse? payload = some j ∧ j ≠ .null ∧ ∀ ms, j ≠ .object ms) ∨
      ∃ ms, Json.parse? payload = some (.object ms) ∧
        (Misread ms ∨ ∃ time ∈ Json.slicesOf payload "createdAt", Timestamp.isWritten time = false) := by
  rw [ofPayload?]
  cases hparse : Json.parse? payload with
  | none => simp
  | some j =>
    obtain ⟨rest, hfront⟩ := Json.exists_parseFront? hparse
    cases j with
    | object ms =>
      cases hread : reader {} (.object ms) with
      | none => simp [hread, reader_eq_none_iff.1 hread]
      | some e =>
        have hgood : ¬Misread ms := by
          rw [← reader_eq_none_iff, hread]
          exact Option.some_ne_none e
        simp [hread, hgood]
    | null =>
      -- nothing is read from null, and there are no times in it
      have hslices : Json.slicesOf payload "createdAt" = [] := by
        rw [Json.slicesOf, Json.slices_of_not_object hfront (by simp)]
        rfl
      simp [reader, Reader.record, hslices]
    | _ => simp [reader, Reader.record]

/-- A time that is written with an escape is refused, though it spells a timestamp. -/
example : ofPayload? "\x7b\"createdAt\":\"2024\\u002d01-02T03:04:05Z\"\x7d".toUTF8.toList = none := by decide +kernel

theorem null_or_text_of_isWritten {value : Bytes} {j : Json} (hwritten : Timestamp.isWritten value = true)
    (h : Json.parse? value = some j) : j = .null ∨ ∃ s, j = .str s := by
  obtain ⟨rest, hfront⟩ := Json.exists_parseFront? h
  unfold Timestamp.isWritten at hwritten
  split at hwritten
  · exact .inl (Prod.mk.inj (Option.some.inj hfront)).1.symm
  · obtain ⟨⟨s, left⟩, -, heq⟩ := Option.map_eq_some_iff.1 hfront
    exact .inr ⟨s, (Prod.mk.inj heq).1.symm⟩
  · cases hwritten

/-- The times of an event that a payload holds are texts, unless they are null. -/
theorem times_of_ofPayload? {event : GeneratedEvent} (hparse : Json.parse? payload = some (.object ms))
    (h : ofPayload? payload = some event) : ∀ j ∈ Json.valuesOf ms "createdAt", j = .null ∨ ∃ s, j = .str s := by
  obtain ⟨rest, hfront⟩ := Json.exists_parseFront? hparse
  have hwritten : ∀ time ∈ Json.slicesOf payload "createdAt", Timestamp.isWritten time = true := by
    intro time htime
    refine Bool.of_not_eq_false fun hbad => ?_
    rw [ofPayload?_eq_none_iff.2 (.inr (.inr ⟨ms, hparse, .inr ⟨time, htime, hbad⟩⟩))] at h
    cases h
  have hread := Json.slicesOf_of_object hfront "createdAt"
  revert hwritten hread
  generalize Json.valuesOf ms "createdAt" = js
  generalize Json.slicesOf payload "createdAt" = times
  intro hwritten hread
  induction hread with
  | nil => simp
  | cons hfirst _ ih =>
    obtain ⟨htime, htimes⟩ := List.forall_mem_cons.1 hwritten
    exact List.forall_mem_cons.2 ⟨null_or_text_of_isWritten htime hfirst.1, ih htimes⟩

end GeneratedEvent

/-! ## What a bridge hands on -/

namespace Bridge

/-- A bridge hands on the events in messages whose subject is about a project, as events of that project. -/
theorem deliver?_eq_some_iff {delivery : String × GeneratedEvent} :
    deliver? lead subject payload = some delivery ↔ Subject.IsAbout lead subject delivery.1 ∧
      ∃ event, GeneratedEvent.ofPayload? payload = some event ∧ delivery.2 = { event with project := delivery.1 } := by
  obtain ⟨project, seen⟩ := delivery
  rw [← Subject.project_eq_ok_iff]
  cases hsubject : Subject.project lead subject with
  | error cause => simp [deliver?, hsubject, Except.toOption]
  | ok named =>
    simp only [deliver?, hsubject, Except.toOption, Option.bind_eq_bind, Option.bind_some, Option.bind_eq_some_iff,
      Option.pure_def, Option.some.injEq, Prod.mk.injEq, Except.ok.injEq]
    constructor
    · rintro ⟨event, hevent, rfl, rfl⟩
      exact ⟨rfl, event, hevent, rfl⟩
    · rintro ⟨rfl, event, hevent, rfl⟩
      exact ⟨event, hevent, rfl, rfl⟩

theorem deliver?_of_isAbout (h : Subject.IsAbout lead subject project) :
    deliver? lead subject payload =
      (GeneratedEvent.ofPayload? payload).map fun seen => (project, { seen with project }) := by
  rw [deliver?, Subject.project_eq_ok_iff.2 h]
  cases GeneratedEvent.ofPayload? payload <;> rfl

/-- A bridge hands nothing on exactly when the subject is about no project or the payload holds no event. -/
theorem deliver?_eq_none_iff :
    deliver? lead subject payload = none ↔
      (∀ project, ¬Subject.IsAbout lead subject project) ∨ GeneratedEvent.ofPayload? payload = none := by
  constructor
  · intro h
    refine or_iff_not_imp_left.2 fun habout => ?_
    obtain ⟨project, hproject⟩ := not_forall_not.1 habout
    rw [deliver?_of_isAbout hproject] at h
    exact Option.map_eq_none_iff.1 h
  · intro h
    refine Option.eq_none_iff_forall_ne_some.2 fun delivery hsome => ?_
    obtain ⟨habout, event, hevent, -⟩ := deliver?_eq_some_iff.1 hsome
    rcases h with h | h
    · exact h _ habout
    · rw [h] at hevent
      cases hevent

end Bridge

theorem Bus.subject_of_publish {b : Bus} {e : GeneratedEvent} {text : Json} (h : b.publish e = .ok (subject, text)) :
    subject = Subject.ofProject b.lead e.project := by
  rw [Bus.publish] at h
  split at h
  · cases h
  · exact (congrArg Prod.fst (Except.ok.inj h)).symm

/-! ## Where messages go -/

/-- A subject is about the one word it was written for and nothing else. A message on the subject of a published event
is handed on once as an event of that project, whatever the message says of its project; on other subjects, and when
no event can be read from it, it is handed to nobody. -/
theorem subjects_direct_messages (lead subject : String) (payload : Bytes) :
    (∀ project, Subject.project lead subject = .ok project ↔
      project ≠ "" ∧ '.' ∉ project.toList ∧ subject = Subject.ofProject lead project) ∧
    (∀ project other, subject = Subject.ofProject lead project → subject = Subject.ofProject lead other → project = other) ∧
    (∀ (b : Bus) (e : GeneratedEvent) (text : Json), b.lead = lead → b.publish e = .ok (subject, text) →
      e.project ≠ "" → '.' ∉ e.project.toList →
      Bridge.deliver? lead subject payload =
        (GeneratedEvent.ofPayload? payload).map fun seen => (e.project, { seen with project := e.project })) ∧
    ((∀ project, project ≠ "" → '.' ∉ project.toList → subject ≠ Subject.ofProject lead project) →
      Bridge.deliver? lead subject payload = none) ∧
    (GeneratedEvent.ofPayload? payload = none → Bridge.deliver? lead subject payload = none) := by
  refine ⟨fun project => ?_, fun project other h h' => ?_, ?_, fun hother => ?_, fun hunread => ?_⟩
  · rw [Subject.project_eq_ok_iff]
    exact ⟨fun h => ⟨h.ne_empty, h.no_dot, h.written⟩, fun h => ⟨h.1, h.2.1, h.2.2⟩⟩
  · exact Subject.ofProject_injective lead (h.symm.trans h')
  · rintro b e text rfl hpublished hne hdot
    exact Bridge.deliver?_of_isAbout ⟨hne, hdot, Bus.subject_of_publish hpublished⟩
  · exact Bridge.deliver?_eq_none_iff.2 (.inl fun project h => hother project h.ne_empty h.no_dot h.written)
  · exact Bridge.deliver?_eq_none_iff.2 (.inr hunread)

/-- A message that says it is about the project `q` on the subject of the project `p` is about `p`. -/
theorem message_of_another_project :
    ∃ text, Bus.publish { lead := "blocks" } { project := "p" } = .ok ("blocks.project.p.generated", text) ∧
      Bridge.deliver? "blocks" "blocks.project.p.generated" "\x7b\"projectId\":\"q\"\x7d".toUTF8.toList =
        some ("p", { project := "p" }) := by
  have hread : GeneratedEvent.ofPayload? "\x7b\"projectId\":\"q\"\x7d".toUTF8.toList = some { project := "q" } := by
    decide +kernel
  refine ⟨_, rfl, ?_⟩
  refine ((subjects_direct_messages "blocks" "blocks.project.p.generated" _).2.2.1 { lead := "blocks" } { project := "p" }
    _ rfl rfl (by decide) (by decide)).trans ?_
  rw [hread]
  rfl

end Blockwright
