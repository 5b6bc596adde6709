import Blockwright.Proofs.Containment.Program
import Blockwright.Proofs.Text.Quotations
/-!
# Tidied programs

A generated program is a finished text with its blank space tidied. The finished text is sealed, and
it begins with a definition or with three line feeds. So the program is in the normal form of tidying,
does not begin with a line feed, and has the literals of the finished text.
-/

namespace Blockwright

open Scan Emit

namespace Generator

variable {g : Generator} {ws : Workspace}

/-- The pass that has emitted the program is contained and has no failure on record, and the code is sealed. -/
theorem contained_of_run {p p' : Pass} {lines : List String} (hs : (g.settings ws).Blank)
    (hemitters : g.emitters = standard) (hstart : g.start ws = .ok p)
    (hrun : (emitTop g.emitters ws.top).run (g.settings ws) p = (.ok lines, p')) :
    p'.Contained ∧ p'.Clean ∧ ∀ line ∈ lines, Sealed line := by
  obtain ⟨hcontained, hclean⟩ := contained_start hstart
  have hsealed := sealed_emitTop hs ws.top p hcontained
  have hall : Cleanly (g.settings ws) (emitTop standard ws.top) := cleanly_emitTop standard ws.top
  have hcleanly := hall p hclean
  rw [hemitters] at hrun
  unfold Ends at hsealed hcleanly
  rw [hrun] at hsealed hcleanly
  exact ⟨hsealed.1, hcleanly.1, hsealed.2⟩

/-- A finished text begins with a line that is not blank or with three line feeds. -/
theorem finish_not_feed {p : Pass} (hp : p.Contained) (hclean : p.Clean) (code : String) (v : List Char)
    (h : (p.finish code).1.toList = '\n' :: v) : ¬ Text.Flush v := by
  unfold Pass.finish at h
  cases hdefinitions : p.definitions with
  | nil =>
    rw [hdefinitions, List.map_nil, String.append_assoc, String.toList_append, String.toList_append] at h
    obtain ⟨-, rfl⟩ := List.cons.inj h
    exact Text.not_flush (u := []) (by simp) _
  | cons d ds =>
    have hopens : Text.opens d.2 = true := (hp.definitions hclean d (by rw [hdefinitions]; exact List.mem_cons_self)).opens
    have hall : Text.opens (Text.joinWith "\n\n" (p.definitions.map (·.2)) ++ "\n\n\n" ++ code) = true := by
      rw [hdefinitions, List.map_cons]
      refine Text.opens_append (Text.opens_append ?_ _) _
      cases ds with
      | nil => exact hopens
      | cons e es => exact Text.opens_append (Text.opens_append hopens _) _
    rw [Text.opens, h] at hall
    cases hall

/-- A program that is generated with blank indentation and without a loop trap is the finished text of
its pass, tidied. It does not begin with a line feed, end with two or have a space or a tab in front of
one; each of the replacements, and so tidying, changes nothing any more; and its literals are those of
the finished text. -/
theorem generate_tidied {code : String} (hemitters : g.emitters = standard) (htrap : g.loopTrap = "")
    (hindent : ∀ c ∈ g.indent.toList, c = ' ' ∨ c = '\t') (h : g.generate ws = .ok code) :
    ∃ p lines p' finished, g.start ws = .ok p ∧
      (emitTop g.emitters ws.top).run (g.settings ws) p = (.ok lines, p') ∧
      finished = (p'.finish (Text.joinWith "\n" lines)).1 ∧ code = Text.tidy finished ∧
      code.toList.head? ≠ some '\n' ∧ ¬ ['\n', '\n'] <:+ code.toList ∧
      (∀ u c v, code.toList = u ++ c :: '\n' :: v → c ≠ ' ' ∧ c ≠ '\t') ∧
      (Text.dropLeadingBlank code.toList = code.toList ∧ Text.dropTrailingBlank code.toList = code.toList ∧
        Text.dropLineEndBlank code.toList = code.toList) ∧
      Text.tidy code = code ∧ literals code = literals finished := by
  obtain ⟨p, lines, p', hstart, hrun, rfl⟩ := exists_of_generate_eq_ok h
  obtain ⟨hcontained, hclean, hlines⟩ := contained_of_run ⟨hindent, htrap⟩ hemitters hstart hrun
  have hfeed : Sealed "\n" := sealed_lit _ (by decide)
  have hsealed := sealed_finish hcontained hclean (sealed_joinWith hfeed hlines)
  have htidy := Text.tidy_tidy (p'.finish (Text.joinWith "\n" lines)).1
  refine ⟨p, lines, p', _, hstart, hrun, rfl, rfl, Text.head?_tidy (finish_not_feed hcontained hclean _),
    htidy.not_feeds_isSuffix, fun u c v hsplit => ?_, htidy.fixed, htidy.tidy_eq, hsealed.literals_tidy⟩
  have hpad := htidy.not_isPad_feed hsplit
  simpa [Text.isPad] using hpad

/-- A literal of two lines and a comment, with spaces at their ends. -/
def spaced : Workspace := { top := [commentedLiteral "a \n b " "note \t"] }

theorem run_spaced {p : Pass} (h : p.failure? = none) :
    (emitTop ({} : Generator).emitters spaced.top).run (Generator.settings {} spaced) p
      = (.ok ["// note \t\n'a \\\n b ';\n"], p) := run_commentedLiteral h _ "a \n b " "note \t"

theorem generate_spaced : generate {} spaced = .ok "// note\n'a \\\n b ';\n" := by
  have hkeys : declaredKeys spaced = [] := rfl
  have hclean : ({ names := startNames {} spaced } : Pass).failure? = none :=
    Pass.failure?_eq_none.2 ⟨rfl, failure_startNames {} spaced⟩
  have htidy : Text.tidy ("" ++ "\n\n\n" ++ "// note \t\n'a \\\n b ';\n") = "// note\n'a \\\n b ';\n" := by
    decide +kernel
  rw [generate_eq (start_of_no_keys hkeys) (run_spaced hclean)]
  exact congrArg Except.ok htidy

theorem spaced_tidied : generate {} spaced = .ok "// note\n'a \\\n b ';\n" ∧
    Text.tidy "// note\n'a \\\n b ';\n" = "// note\n'a \\\n b ';\n" ∧
    ∃ finished, "// note\n'a \\\n b ';\n" = Text.tidy finished ∧
      literals finished = ["'a \\\n b '"] := by
  have hindent : ∀ c ∈ ({} : Generator).indent.toList, c = ' ' ∨ c = '\t' := fun c hc =>
    have hspaces : c ∈ [' ', ' '] := hc
    .inl (by simpa using hspaces)
  obtain ⟨p, lines, p', finished, -, -, -, hcode, -, -, -, -, htidy, hliterals⟩ :=
    generate_tidied rfl rfl hindent generate_spaced
  refine ⟨generate_spaced, htidy, finished, hcode, ?_⟩
  rw [← hliterals]
  decide +kernel

end Generator
end Blockwright
