import Blockwright.Proofs.Program.Strictness
import Blockwright.Proofs.Service.Transparency
import Blockwright.Proofs.Twins.Comments
/-!
# What services that share a cache answer

The key of a program tells its document and its index mode, and nothing else of what it was made with.
So a service that finds a program in a shared cache answers with what the last service made that stored
one under the key, which is what it would make itself when the two agree on the indentation and on the
reserved words.
-/

namespace Blockwright

/-! ## Settings that are not in the key -/

/-- Settings that differ in the index mode and the strictness at most. -/
structure GeneratorSettings.Alike (s s' : GeneratorSettings) : Prop where
  indent : s.generator.indent = s'.generator.indent
  reserved : s.reserved = s'.reserved

/-- In one index mode, such settings make the same program of a document. -/
theorem GeneratorSettings.Alike.compile_eq {s s' : GeneratorSettings} (h : s.Alike s') (document : Bytes)
    (oneBased : Bool) : s.compile document oneBased = s'.compile document oneBased := by
  have hgenerator : s'.generator = { s.generator with strict := s'.strict } := by
    unfold generator
    rw [h.reserved]
    exact congrArg (fun indent => ({ reserved := s'.reserved, indent, strict := s'.strict } : Generator)) h.indent.symm
  unfold compile
  rw [hgenerator]
  exact bind_congr fun ws => congrArg (Except.mapError _) (Generator.generate_strict rfl s'.strict _).symm

namespace Turn

theorem code_eq_of_alike {t t' : Turn} (hsame : t.SameRequest t')
    (hsettings : t.service.settings.Alike t'.service.settings) : t.plainOutcome.code = t'.plainOutcome.code := by
  rw [plainOutcome, plainOutcome, Visit.plainOutcome_eq, Visit.plainOutcome_eq, hsame.1, hsame.2,
    hsettings.compile_eq]

end Turn

/-! ## Answers -/

variable {start c : Cache} {turns earlier later : List Turn} {t : Turn}

/-- A service that makes a program answers with its own. A service that finds one answers with that of the
service which was the last to store one for the document and the index mode; it is its own when the two have the
same indentation and the same reserved words, whatever else they are set to. -/
theorem shared_cache_answers (hrun : Shares start turns c) (hfresh : ∀ key, isCodeKey key = true → start.held? key = none)
    (hcollision : Turn.NoCollision turns) (hsplit : turns = earlier ++ t :: later) :
    (t.outcome.cached = false → t.outcome.code = t.plainOutcome.code) ∧
    (t.outcome.cached = true → ∃ before t' after, earlier = before ++ t' :: after ∧ t'.SameRequest t ∧ t'.Stored ∧
      (∀ t'' ∈ after, t''.SameRequest t → ¬ t''.Stored) ∧ t.outcome.code = t'.plainOutcome.code) ∧
    ((∀ t' ∈ earlier, t'.SameRequest t → t'.Stored → t'.service.settings.Alike t.service.settings) →
      t.outcome.code = t.plainOutcome.code) := by
  have ht : t ∈ turns := hsplit ▸ List.mem_append_right _ List.mem_cons_self
  have hmade : t.outcome.cached = false → t.outcome.code = t.plainOutcome.code := t.visit.code_of_not_cached
  have hfound : t.outcome.cached = true → ∃ (before : List Turn) (t' : Turn) (after : List Turn),
      earlier = before ++ t' :: after ∧ t'.SameRequest t ∧ t'.Stored ∧
        (∀ t'' ∈ after, t''.SameRequest t → ¬ t''.Stored) ∧ t.outcome.code = t'.plainOutcome.code := by
    intro hcached
    -- What is found was held by the cache that the earlier requests left.
    obtain ⟨code, hheld, hcode⟩ := t.visit.held?_of_cached hcached
    obtain ⟨before, t', after, hearlier, hkey, hstored, hplain, hlast⟩ :=
      (hrun.before hsplit).holdsLast hfresh _ code (isCodeKey_cacheKey _) hheld
    have ht' : t' ∈ turns := by simp [hsplit, hearlier]
    refine ⟨before, t', after, hearlier, hcollision.sameRequest ht' ht hkey, hstored, fun t'' ht'' hsame => ?_, ?_⟩
    · exact hlast t'' ht'' hsame.key_eq
    · exact hcode.trans hplain.symm
  refine ⟨hmade, hfound, fun hsettings => ?_⟩
  cases hcached : t.outcome.cached with
  | false => exact hmade hcached
  | true =>
    obtain ⟨before, t', after, hearlier, hsame, hstored, -, hcode⟩ := hfound hcached
    have ht' : t' ∈ earlier := hearlier ▸ List.mem_append_right _ List.mem_cons_self
    rw [hcode, Turn.code_eq_of_alike hsame (hsettings t' ht' hsame hstored)]

/-! ## One request to two services -/

namespace Service

/-- A request to one service with an empty cache, and the same to another one behind it. -/
def twoTurns (v v' : Service) (document : Bytes) : List Turn :=
  [⟨v, firstVisit document⟩, ⟨v', v.secondVisit document⟩]

theorem shares_twoTurns (v v' : Service) (document : Bytes) :
    Shares (.memory [] {}) (v.twoTurns v' document) ((v.secondVisit document).cacheBehind v') :=
  .turn v' document none (.turn v document none .start)

theorem noCollision_twoTurns (v v' : Service) (hbase : v'.indexMode none = v.indexMode none) (document : Bytes) :
    Turn.NoCollision (v.twoTurns v' document) := by
  have hsame : ∀ t ∈ v.twoTurns v' document, t.digested = checksumText document (v.indexMode none) := by
    intro t ht
    rcases List.mem_pair.1 ht with rfl | rfl
    · rfl
    · exact congrArg (checksumText document) hbase
  intro t ht t' ht' _
  rw [hsame t ht, hsame t' ht']

/-- A strict service. -/
def strictService : Service := { settings := { strict := true } }

/-- A service that indents by four spaces. -/
def wideService : Service := { settings := { indent := "    " } }

/-- A strict service finds what a lenient one has made, and would make it itself. -/
theorem emptyDocument_shared :
    Shares (.memory [] {}) (usual.twoTurns strictService emptyDocument)
        ((usual.secondVisit emptyDocument).cacheBehind strictService) ∧
      (Turn.mk strictService (usual.secondVisit emptyDocument)).outcome.cached = true ∧
      (Turn.mk strictService (usual.secondVisit emptyDocument)).outcome.code =
        (Turn.mk strictService (usual.secondVisit emptyDocument)).plainOutcome.code := by
  obtain ⟨code, hcode⟩ := compile_emptyDocument usual.settings (usual.indexMode none)
  have hcached : ((usual.secondVisit emptyDocument).outcome strictService).cached = true :=
    congrArg Outcome.cached (outcome_secondVisit strictService hcode rfl)
  have hcollision : Turn.NoCollision (usual.twoTurns strictService emptyDocument) :=
    noCollision_twoTurns usual strictService rfl emptyDocument
  have hsplit : usual.twoTurns strictService emptyDocument =
      [⟨usual, firstVisit emptyDocument⟩] ++ ⟨strictService, usual.secondVisit emptyDocument⟩ :: [] := rfl
  obtain ⟨-, -, hown⟩ :=
    shared_cache_answers (usual.shares_twoTurns strictService emptyDocument) (fun _ _ => rfl) hcollision hsplit
  refine ⟨usual.shares_twoTurns strictService emptyDocument, hcached, hown fun t' ht' _ _ => ?_⟩
  rw [List.mem_singleton.1 ht']
  exact ⟨rfl, rfl⟩

open Generator

set_option maxRecDepth 4000 in
theorem decode_classified : Workspace.decode (some Kind.Registry.standard.classify) loopingDocument =
    .ok (looping "c") := by rfl

theorem compile_usual : usual.settings.compile loopingDocument (usual.indexMode none) =
    .ok "while (false) \x7b\n  // c\n  window.alert('');\n\x7d\n" :=
  compile_of_decode decode_classified (generate_looping rfl (fun _ _ _ _ => rfl) (by decide +kernel))

theorem compile_wide : wideService.settings.compile loopingDocument (wideService.indexMode none) =
    .ok "while (false) \x7b\n    // c\n    window.alert('');\n\x7d\n" :=
  compile_of_decode decode_classified (generate_looping rfl (fun _ _ _ _ => rfl) (by decide +kernel))

/-- The indentation of the service that asks is not the one of the program that it finds. -/
theorem indentation_mixed :
    (Turn.mk wideService (usual.secondVisit loopingDocument)).outcome.code =
      .ok "while (false) \x7b\n  // c\n  window.alert('');\n\x7d\n" ∧
    (Turn.mk wideService (usual.secondVisit loopingDocument)).plainOutcome.code =
      .ok "while (false) \x7b\n    // c\n    window.alert('');\n\x7d\n" ∧
    ¬ ∀ v v' : Service, ∀ start turns c, Shares start turns c → (∀ t ∈ turns, t.service = v ∨ t.service = v') →
      (∀ key, isCodeKey key = true → start.held? key = none) → Turn.NoCollision turns →
      ∀ t ∈ turns, t.outcome.code = t.plainOutcome.code := by
  have hfound : (Turn.mk wideService (usual.secondVisit loopingDocument)).outcome.code =
      .ok "while (false) \x7b\n  // c\n  window.alert('');\n\x7d\n" :=
    congrArg Outcome.code (outcome_secondVisit wideService compile_usual rfl)
  have hown : (Turn.mk wideService (usual.secondVisit loopingDocument)).plainOutcome.code =
      .ok "while (false) \x7b\n    // c\n    window.alert('');\n\x7d\n" := by
    rw [Turn.plainOutcome, Visit.plainOutcome_eq]
    exact compile_wide
  refine ⟨hfound, hown, fun h => ?_⟩
  have hcollision : Turn.NoCollision (usual.twoTurns wideService loopingDocument) :=
    noCollision_twoTurns usual wideService rfl loopingDocument
  have hservice : ∀ t ∈ usual.twoTurns wideService loopingDocument, t.service = usual ∨ t.service = wideService :=
    fun t ht => (List.mem_pair.1 ht).imp (congrArg Turn.service) (congrArg Turn.service)
  have hsame := h usual wideService _ _ _ (usual.shares_twoTurns wideService loopingDocument) hservice
    (fun _ _ => rfl) hcollision _ (List.mem_cons_of_mem _ List.mem_cons_self)
  rw [hfound, hown] at hsame
  exact absurd (Except.ok.inj hsame) (by decide)

end Service
end Blockwright
