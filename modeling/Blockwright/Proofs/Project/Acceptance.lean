import Blockwright.Project.Document
import Blockwright.Project.Edit
import Blockwright.Project.Run
import Blockwright.Proofs.Attempts
import Blockwright.Proofs.Service.Transparency
/-!
# Documents that are stored and documents that are generated

A project is stored when a workspace can be read from its document, without a classifier, and it is
generated from the workspace that is read with one. The two readings accept the same documents: the
classifier says what kind a socket is, and nothing else. The document of a project that has none is the
exception: it is stored as an empty workspace, and then it is not read when the project is generated.
-/

/-! ## Which documents are workspaces -/

namespace Blockwright
namespace Workspace

variable (classify classify' : Option Classifier)

theorem alike_plugged {x y : Except BlockDecodeError Block} (h : Alike (fun _ _ => True) x y) :
    Alike (fun _ _ => True) (x.map some) (y.map some) :=
  h.map fun _ _ h => h

mutual

theorem alike_readBlock (fuel : Nat) (link link' : Link) (j : Json) :
    Alike (fun _ _ => True) (readBlock classify fuel link j) (readBlock classify' fuel link' j) := by
  cases fuel with
  | zero => rw [readBlock, readBlock]; exact rfl
  | succ fuel =>
    rw [readBlock, readBlock]
    cases BlockMembers.read? j with
    | none => exact rfl
    | some m =>
      dsimp only
      split
      · exact rfl
      · refine .after fun extra _ => .after fun fieldMembers _ => .after fun fields _ => .after fun inputMembers _ => ?_
        refine .bind (alike_readSockets fuel m.id m.kind [] [] inputMembers) fun sockets sockets' _ => ?_
        cases m.next.bind (·.target?) with
        | none => exact .pure trivial
        | some target =>
          exact (alike_plugged (alike_readBlock fuel .next .next target)).bind fun _ _ _ => .pure trivial

theorem alike_readSockets (fuel : Nat) (id kind : String) (sockets sockets' : List Socket)
    (members : List (String × Json)) :
    Alike (fun _ _ => True) (readSockets classify fuel id kind sockets members)
      (readSockets classify' fuel id kind sockets' members) := by
  cases fuel with
  | zero => rw [readSockets, readSockets]; exact rfl
  | succ fuel =>
    cases members with
    | nil => rw [readSockets, readSockets]; exact trivial
    | cons member rest =>
      obtain ⟨name, j⟩ := member
      rw [readSockets, readSockets]
      cases Connection.reader {} j with
      | none => exact rfl
      | some c =>
        dsimp only
        cases c.target? with
        | none => exact alike_readSockets fuel id kind _ _ rest
        | some target =>
          exact (alike_plugged (alike_readBlock fuel _ _ target)).bind fun _ _ _ => alike_readSockets fuel id kind _ _ rest

end

theorem alike_readTop (fuel i : Nat) (top : List Json) :
    Alike (fun _ _ => True) (readTop classify fuel i top) (readTop classify' fuel i top) := by
  induction top generalizing i with
  | nil => rw [readTop, readTop]; exact trivial
  | cons j rest ih =>
    rw [readTop, readTop]
    exact (alike_readBlock classify classify' fuel .top .top j).mapError.bind fun _ _ _ =>
      (ih (i + 1)).bind fun _ _ _ => .pure trivial

/-- A document is accepted with every classifier or with none, and rejected for one reason. -/
theorem alike_decode (document : Bytes) :
    Alike (fun _ _ => True) (decode classify document) (decode classify' document) := by
  unfold decode
  cases (Json.parse? document).bind readDocument? with
  | none => exact rfl
  | some parts => exact (alike_readTop classify classify' _ 0 parts.1).bind fun _ _ _ => .pure trivial

end Workspace

/-- A workspace can be read from a document, whatever the classifier. -/
def Document.Readable (d : Document) : Prop := ∀ classify, ∃ ws, d.decode classify = .ok ws

namespace Document

theorem readable_none : Readable none := fun _ => ⟨_, rfl⟩

theorem readable_of_decode {classify : Option Classifier} {bytes : Bytes} {ws : Workspace}
    (h : Workspace.decode classify bytes = .ok ws) : Readable (some bytes) := by
  intro classify'
  unfold decode
  dsimp only
  split
  · exact ⟨_, rfl⟩
  · have halike := Workspace.alike_decode classify classify' bytes
    rw [h] at halike
    cases hread : Workspace.decode classify' bytes with
    | ok ws' => exact ⟨ws', rfl⟩
    | error e => rw [hread] at halike; exact halike.elim

end Document
end Blockwright

namespace Blockwright

/-! ## Reading -/

namespace Workspace

/-- What a document is refused for does not depend on the classifier. -/
theorem decode_error_iff (classify classify' : Option Classifier) (document : Bytes) (e : DecodeError) :
    decode classify document = .error e ↔ decode classify' document = .error e := by
  have halike := alike_decode classify classify' document
  generalize decode classify document = x at halike
  generalize decode classify' document = y at halike
  cases x with
  | ok ws =>
    cases y with
    | ok ws' => exact iff_of_false nofun nofun
    | error e' => exact halike.elim
  | error e₁ =>
    cases y with
    | ok ws' => exact halike.elim
    | error e₂ => rw [show e₁ = e₂ from halike]

/-- No bytes are no JSON. -/
theorem decode_nil (classify : Option Classifier) : decode classify [] = .error .unreadable := rfl

end Workspace

theorem Document.check_iff (d : Document) (e : DecodeError) :
    d.check = .error (.invalid e) ↔ d.getD [] ≠ [] ∧ Workspace.decode none (d.getD []) = .error e := by
  unfold check
  cases d with
  | none => simp [decode]
  | some bytes =>
    cases bytes with
    | nil => simp [decode]
    | cons b bytes =>
      simp only [decode, List.isEmpty_cons, Bool.false_eq_true, if_false, Option.getD_some, ne_eq, reduceCtorEq,
        not_false_eq_true, true_and]
      cases Workspace.decode none (b :: bytes) <;> simp

/-! ## Storing -/

theorem Patch.check_invalid_iff (c : Patch) (e : DecodeError) :
    c.check = .error (.invalid e) ↔ c.document.check = .error (.invalid e) := by
  unfold Patch.check
  cases c.document with
  | none => simp [Document.check, Document.decode]
  | some bytes => exact Iff.rfl

namespace Store

variable (s : Store)

theorem create_invalid_iff (p : Project) (e : DecodeError) :
    s.create p = .error (.invalid e) ↔ p.document.check = .error (.invalid e) := by
  unfold create
  rw [bind_eq_error_iff]
  simp [mapError_eq_error_iff]

theorem get_ne_invalid (id : ProjectId) (owner : String) (e : DecodeError) : s.get id owner ≠ .error (.invalid e) := by
  unfold get
  split <;> simp

theorem update_invalid_iff (id : ProjectId) (owner : String) (c : Patch) (e : DecodeError) :
    s.update id owner c = .error (.invalid e) ↔
      (∃ p, s.get id owner = .ok p) ∧ c.document.check = .error (.invalid e) := by
  unfold update
  simp only [bind_eq_error_iff, mapError_eq_error_iff, s.get_ne_invalid, c.check_invalid_iff, pure, Except.pure]
  simp

end Store

/-! ## Generating -/

theorem GeneratorSettings.compile_invalid_iff (settings : GeneratorSettings) (document : Bytes) (oneBased : Bool)
    (e : DecodeError) :
    settings.compile document oneBased = .error (.invalidWorkspace e) ↔ Workspace.decode none document = .error e := by
  rw [Workspace.decode_error_iff none (some Kind.Registry.standard.classify)]
  unfold compile
  simp [bind_eq_error_iff, mapError_eq_error_iff]

namespace Service

variable (v : Service)

/-- Whatever is in the cache, a document is rejected as unreadable only when it cannot be read. -/
theorem decode_of_invalid {cache : Cache} {document : Bytes} {oneBased : Option Bool} {e : DecodeError}
    (h : (v.generate cache document oneBased).1.code = .error (.invalidWorkspace e)) :
    Workspace.decode none document = .error e := by
  rcases v.generate_cases cache document oneBased with ⟨code, -, hg⟩ | ⟨code, -, hg⟩ | ⟨r, hc, hg⟩ <;> rw [hg] at h
  · cases h
  · cases h
  · exact (v.settings.compile_invalid_iff document _ e).1 (hc.trans h)

/-- Without a cache, exactly those documents are. -/
theorem invalid_iff (document : Bytes) (oneBased : Option Bool) (e : DecodeError) :
    (v.generate .off document oneBased).1.code = .error (.invalidWorkspace e) ↔
      Workspace.decode none document = .error e := by
  rw [← v.settings.compile_invalid_iff document (v.indexMode oneBased)]
  exact Eq.congr_left (congrArg Outcome.code (Visit.plainOutcome_eq (v := v) ⟨document, oneBased, .off⟩))

theorem rejection_generateProject {cache cache' : Cache} {s s' : Store} {p : Project} {user : String}
    {run : ProjectRun} (h : v.generateProject cache s p user = (.ok (run, s'), cache')) :
    run.rejection = (v.generate cache (p.document.getD []) none).1.rejection := by
  unfold generateProject at h
  dsimp only at h
  split at h
  · cases h
  · cases h
    rfl

/-- A project is generated, with whatever outcome, when the outcome can be recorded. -/
theorem generateProject_ok (cache : Cache) {s : Store} {p : Project} (user : String)
    (h : ∀ checksum code error, ∃ r, s.record p.id checksum code error = .ok r) :
    ∃ run s' cache', v.generateProject cache s p user = (.ok (run, s'), cache') := by
  unfold generateProject
  dsimp only
  split
  · next hrecord =>
    obtain ⟨r, hr⟩ := h (v.generate cache (p.document.getD []) none).1.checksum
      (v.generate cache (p.document.getD []) none).1.codeText
      (((v.generate cache (p.document.getD []) none).1.rejection.map (·.message)).getD "")
    cases hrecord.symm.trans hr
  · exact ⟨_, _, _, rfl⟩

/-- A project cannot be generated because no workspace can be read from its document. -/
def Unreadable (document : Document) (oneBased : Option Bool) (e : DecodeError) : Prop :=
  (v.generate .off (document.getD []) oneBased).1.code = .error (.invalidWorkspace e)

/-- A document that is there is refused when its project is created or changed exactly when the service
cannot read it, and for the same reason. So a project that was accepted is generated from a workspace
that was read. When there is no document it is never refused, and the service never reads it. -/
theorem refused_iff_unreadable (oneBased : Option Bool) :
    (∀ (s : Store) (p : Project) (e : DecodeError), s.create p = .error (.invalid e) ↔
      p.document.getD [] ≠ [] ∧ v.Unreadable p.document oneBased e) ∧
    (∀ (s : Store) (id : ProjectId) (owner : String) (c : Patch) (e : DecodeError),
      s.update id owner c = .error (.invalid e) ↔
        (∃ p, s.get id owner = .ok p) ∧ c.document.getD [] ≠ [] ∧ v.Unreadable c.document oneBased e) ∧
    (∀ (s : Store) (p : Project), p.document.getD [] ≠ [] → (∀ e, s.create p ≠ .error (.invalid e)) →
      ∀ (cache cache' : Cache) (user : String) (run : ProjectRun) (s' s'' : Store),
        v.generateProject cache s' p user = (.ok (run, s''), cache') → ∀ e, run.rejection ≠ some (.invalidWorkspace e)) ∧
    ∀ document : Document, document.getD [] = [] → v.Unreadable document oneBased .unreadable := by
  have hcheck : ∀ (document : Document) (e : DecodeError), document.check = .error (.invalid e) ↔
      document.getD [] ≠ [] ∧ v.Unreadable document oneBased e := fun document e => by
    rw [document.check_iff, Unreadable, v.invalid_iff]
  refine ⟨fun s p e => ?_, fun s id owner c e => ?_, fun s p hthere haccepted cache cache' user run s' s'' hrun e hr => ?_,
    fun document habsent => ?_⟩
  · rw [s.create_invalid_iff, hcheck]
  · rw [s.update_invalid_iff, hcheck]
  · rw [v.rejection_generateProject hrun, Outcome.rejection] at hr
    split at hr
    · cases hr
    · next r hcode =>
      rw [Option.some.inj hr] at hcode
      refine haccepted e ((s.create_invalid_iff p e).2 ((p.document.check_iff e).2 ⟨hthere, v.decode_of_invalid hcode⟩))
  · rw [Unreadable, v.invalid_iff, habsent]
    exact Workspace.decode_nil none

/-- A project without a document. -/
def blankProject : Project := { id := ⟨1⟩, name := "p", owner := "a" }

/-- A project whose document is no JSON. -/
def brokenProject : Project := { blankProject with document := some [123] }

/-- A project whose document is an empty object. -/
def plainProject : Project := { blankProject with document := some emptyDocument }

/-- What cannot be read is refused, and what was accepted is generated from a workspace that was read. -/
theorem brokenProject_refused :
    (brokenProject.document.getD [] ≠ [] ∧ usual.Unreadable brokenProject.document none .unreadable ∧
      ({} : Store).create brokenProject = .error (.invalid .unreadable)) ∧
    (∀ e, ({} : Store).create plainProject ≠ .error (.invalid e)) ∧
      ∃ run s' cache', usual.generateProject .off {} plainProject "a" = (.ok (run, s'), cache') ∧
        ∀ e, run.rejection ≠ some (.invalidWorkspace e) := by
  obtain ⟨hcreate, -, hgenerate, -⟩ := usual.refused_iff_unreadable none
  have hunreadable : usual.Unreadable brokenProject.document none .unreadable :=
    (usual.invalid_iff [123] none .unreadable).2 rfl
  have hrecord : ∀ (id : ProjectId) (checksum code error : String),
      ∃ r, ({} : Store).record id checksum code error = .ok r := fun _ _ _ _ => ⟨_, rfl⟩
  have haccepted : ∀ e, ({} : Store).create plainProject ≠ .error (.invalid e) := by
    intro e h
    have hdecode : Workspace.decode none emptyDocument = .ok {} := by rfl
    obtain ⟨-, herror⟩ := (plainProject.document.check_iff e).1 ((Store.create_invalid_iff {} plainProject e).1 h)
    cases hdecode.symm.trans herror
  obtain ⟨run, s', cache', hrun⟩ := usual.generateProject_ok .off "a" (hrecord plainProject.id)
  exact ⟨⟨by decide, hunreadable, (hcreate {} brokenProject .unreadable).2 ⟨by decide, hunreadable⟩⟩, haccepted,
    run, s', cache', hrun, hgenerate {} plainProject (by decide) haccepted .off cache' "a" run {} s' hrun⟩

/-- A project without a document is accepted, and then the service finds that it cannot be read. -/
theorem blankProject_accepted_unreadable :
    (∃ s, ({} : Store).create blankProject = .ok s) ∧ usual.Unreadable blankProject.document none .unreadable :=
  ⟨⟨_, rfl⟩, (usual.invalid_iff [] none .unreadable).2 rfl⟩

end Service
end Blockwright
