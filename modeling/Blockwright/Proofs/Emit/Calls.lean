import Mathlib.Data.List.Induction
import Blockwright.Proofs.Emit.Ends
import Blockwright.Proofs.Entries
import Blockwright.Proofs.Names.Slots
import Blockwright.Proofs.Text.Utf8
/-!
# Calls of a pass

Emitters ask a pass for helpers, for names and to put code in front of the program, in any order.
A run of such calls is told by its answers and by the pass behind it; each kind of call has its
equation, and code in front of the program is read back by its key.
-/

namespace Blockwright

/-! ## Bodies -/

/-- Lines one after the other with a line feed between neighbours. -/
def RawText.joinLines (lines : List RawText) : RawText := ⟨List.intercalate [10] (lines.map (·.bytes))⟩

theorem RawText.joinLines_ofString (lines : List String) :
    joinLines (lines.map ofString) = ofString (Text.joinWith "\n" lines) := by
  have hfeed : Text.bytesOf "\n" = [10] := by rw [Text.bytesOf_eq]; decide
  refine congrArg RawText.mk ?_
  fun_induction Text.joinWith "\n" lines with
  | case1 => rw [Text.bytesOf_eq]; rfl
  | case2 s => simp [List.intercalate]
  | case3 s t rest ih =>
    rw [Text.bytesOf_append, Text.bytesOf_append, ← ih, hfeed]
    simp [List.intercalate]

/-- Bodies that are given line by line have one text only when their lines are the same. -/
theorem RawText.joinLines_inj {lines lines' : List RawText} (hne : lines ≠ []) (hne' : lines' ≠ [])
    (hfeed : ∀ line ∈ lines, 10 ∉ line.bytes) (hfeed' : ∀ line ∈ lines', 10 ∉ line.bytes) :
    joinLines lines = joinLines lines' ↔ lines = lines' := by
  have hcut : ∀ {ls : List RawText}, ls ≠ [] → (∀ line ∈ ls, 10 ∉ line.bytes) →
      (joinLines ls).bytes.splitOn 10 = ls.map (·.bytes) := by
    intro ls hls hno
    refine List.splitOn_intercalate 10 (fun bytes hb => ?_) (by simpa using hls)
    obtain ⟨line, hline, rfl⟩ := List.mem_map.1 hb
    exact hno line hline
  refine ⟨fun h => (List.map_inj_right fun a b hab => congrArg RawText.mk hab).1 ?_, congrArg joinLines⟩
  rw [← hcut hne hfeed, ← hcut hne' hfeed', h]

/-! ## Calls -/

/-- What an emitter asks of a pass besides the code of other blocks. -/
inductive Call where
  | provide (desired : RawText) (body : List RawText)
  | name (key : RawText) (category : Category)
  | distinct (seed : RawText) (category : Category)
  | reserve (words : List String)
  | define (key : RawText) (code : String)

namespace Call

/-- The action of a call; it gives back the name that is asked for, if any. -/
def perform : Call → Emit String
  | .provide desired body => Emit.provideText desired (.joinLines body)
  | .name key category => Emit.name key category
  | .distinct seed category => modifyGet fun p =>
    ((p.names.distinct seed category).1, { p with names := (p.names.distinct seed category).2 })
  | .reserve words => do
    modify fun p => { p with names := p.names.reserve words }
    return ""
  | .define key code => do
    Emit.define key code
    return ""

/-- The helpers of emitters are provided this way. -/
theorem perform_provide (desired : String) (body : List String) :
    perform (.provide desired (body.map .ofString)) = Emit.provide desired body := by
  rw [perform, RawText.joinLines_ofString, Emit.provide]

/-- The name and the body of a helper that is provided. -/
def provision? : Call → Option (RawText × RawText)
  | .provide desired body => some (desired, .joinLines body)
  | _ => none

/-- The key and the code of a definition. -/
def definition? : Call → Option (RawText × String)
  | .define key code => some (key, code)
  | _ => none

/-- The key that a call puts code under. -/
def key? : Call → Option RawText
  | .provide desired _ => some desired
  | .define key _ => some key
  | _ => none

end Call

/-- The helpers that calls provide, in order. -/
def provisions (calls : List Call) : List (RawText × RawText) := calls.filterMap Call.provision?

namespace Pass

/-- Serves one call: the answer, and the pass behind it. -/
def serve (settings : PassSettings) (p : Pass) (c : Call) : String × Pass :=
  match c.perform.run settings p with
  | (.ok answer, p') => (answer, p')
  | (.error _, p') => ("", p')

/-- The pass behind a run of calls. -/
def after (settings : PassSettings) (p : Pass) (calls : List Call) : Pass :=
  calls.foldl (fun p c => (p.serve settings c).2) p

/-- The calls of a run, each with its answer. -/
def trace (settings : PassSettings) (p : Pass) : List Call → List (Call × String)
  | [] => []
  | c :: calls => (c, (p.serve settings c).1) :: (p.serve settings c).2.trace settings calls

/-- The code that was last put under a key by a definition. -/
def lastDefined? (before : Pass) (calls : List Call) (key : RawText) : Option String :=
  (before.definitions ++ calls.filterMap Call.definition?).reverse.lookup key

/-- The keys of the code in front of the program, in the order of first use. -/
def registered (before : Pass) (calls : List Call) : List RawText :=
  (before.definitions.map (·.1) ++ calls.filterMap Call.key?).eraseDups

variable {settings : PassSettings}

/-! ## What a call does -/

/-- No call fails on its own. -/
theorem run_perform (p : Pass) (c : Call) :
    c.perform.run settings p = (.ok (p.serve settings c).1, (p.serve settings c).2) := by
  cases c <;> rfl

theorem after_concat (p : Pass) (calls : List Call) (c : Call) :
    p.after settings (calls ++ [c]) = ((p.after settings calls).serve settings c).2 := by
  simp [after]

theorem trace_concat (p : Pass) (calls : List Call) (c : Call) :
    p.trace settings (calls ++ [c]) =
      p.trace settings calls ++ [(c, ((p.after settings calls).serve settings c).1)] := by
  induction calls generalizing p with
  | nil => rfl
  | cons c' calls ih => exact congrArg _ (ih _)

theorem ends_perform {p : Pass} {c : Call} {Q : String → Pass → Prop} {E : Failure → Prop}
    (h : Q (p.serve settings c).1 (p.serve settings c).2) : Emit.Ends settings p c.perform Q E := by
  rw [Emit.Ends, run_perform]
  exact h

theorem serve_provide (p : Pass) (desired : RawText) (body : List RawText) :
    p.serve settings (.provide desired body) = match p.helpers.lookup desired with
      | some helper =>
        if settings.strict && helper.body != .joinLines body then
          (helper.name, { p with failure := p.failure.or (some (.helperMismatch desired.text)) })
        else (helper.name, p)
      | none =>
        let name := (p.names.distinct desired .procedure).1
        (name, { p with
          names := (p.names.distinct desired .procedure).2
          helpers := p.helpers ++ [(desired, ⟨name, .joinLines body⟩)]
          definitions := setDefinition p.definitions desired
            (Emit.helperCode settings.indent name (RawText.joinLines body).text) }) := rfl

/-- A helper that the pass has: its name is given back, and in a strict pass another body is
recorded as a failure. -/
theorem serve_known {p : Pass} {desired : RawText} {helper : Helper} (body : List RawText)
    (h : p.helpers.lookup desired = some helper) :
    p.serve settings (.provide desired body) = (helper.name, { p with
      failure := p.failure.or (if settings.strict ∧ helper.body ≠ .joinLines body then
        some (.helperMismatch desired.text) else none) }) := by
  rw [serve_provide, h]
  by_cases hm : settings.strict = true ∧ helper.body ≠ .joinLines body
  · simp [hm]
  · simp [hm]

/-- A call asks at most one thing of the registry, and nothing that clears it. -/
theorem names_serve (settings : PassSettings) (p : Pass) (c : Call) : (p.serve settings c).2.names = p.names ∨
    ∃ r : Names.Request, r ≠ .reset ∧ (p.serve settings c).2.names = (p.names.serve r).2 := by
  cases c with
  | provide desired body =>
    rw [serve_provide]
    cases p.helpers.lookup desired with
    | some helper =>
      left
      dsimp only
      split <;> rfl
    | none => exact .inr ⟨.distinct desired .procedure, by simp, rfl⟩
  | name key category => exact .inr ⟨.get key category, by simp, rfl⟩
  | distinct seed category => exact .inr ⟨.distinct seed category, by simp, rfl⟩
  | reserve words => exact .inr ⟨.reserve words, by simp, rfl⟩
  | define key code => exact .inl rfl

theorem grows_serve (p : Pass) (c : Call) : p.names.Grows (p.serve settings c).2.names := by
  rcases names_serve settings p c with hn | ⟨r, hr, hn⟩
  · rw [hn]; exact .refl _
  · rw [hn]; exact Names.grows_serve _ hr

theorem idNames_serve (p : Pass) (c : Call) : (p.serve settings c).2.names.idNames = p.names.idNames := by
  cases c with
  | provide desired body =>
    cases hfound : p.helpers.lookup desired with
    | some helper => rw [serve_known body hfound]
    | none =>
      rw [serve_provide, hfound]
      exact Names.idNames_serve p.names (r := .distinct desired .procedure) rfl
  | name key category => exact Names.idNames_serve p.names (r := .get key category) rfl
  | distinct seed category => exact Names.idNames_serve p.names (r := .distinct seed category) rfl
  | reserve words => exact Names.idNames_serve p.names (r := .reserve words) rfl
  | define key code => rfl

/-! ## Code in front of the program -/

theorem setDefinition_eq (definitions : List (RawText × String)) (key : RawText) (code : String) :
    setDefinition definitions key code = Entries.put definitions key code := rfl

theorem eraseDups_concat (keys : List RawText) (key : RawText) :
    (keys ++ [key]).eraseDups = if key ∈ keys then keys.eraseDups else keys.eraseDups ++ [key] := by
  rw [List.eraseDups_append]
  split_ifs with h
  · simp [List.removeAll, h]
  · simp [List.removeAll, h, List.eraseDups_cons]

theorem nodup_eraseDups (keys : List RawText) : keys.eraseDups.Nodup := by
  induction keys using List.reverseRecOn with
  | nil => simp
  | append_singleton keys key ih =>
    rw [eraseDups_concat]
    split_ifs with h
    · exact ih
    · refine List.nodup_append.2 ⟨ih, by simp, fun a ha b hb => ?_⟩
      rintro rfl
      rw [List.mem_singleton] at hb
      exact h (List.mem_eraseDups.1 (hb ▸ ha))

end Pass
end Blockwright
