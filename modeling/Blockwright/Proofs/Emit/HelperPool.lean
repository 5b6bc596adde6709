import Mathlib.Data.List.Nodup
import Mathlib.Tactic.Push
import Blockwright.Emit.Math
import Blockwright.Proofs.Containment.Program
import Blockwright.Proofs.Emit.Calls
import Blockwright.Proofs.Emit.Ends
import Blockwright.Proofs.Names.Unreserved
import Blockwright.Proofs.Text.Indentation
/-!
# The pool of helpers

`Pooled` says what a pass knows behind a run of calls: each helper by the name asked for, with the
body it was first given and a name of its own, and the code that goes in front, by key, in the
order of first use. Every call keeps it while names are left.

The catalogue has the helpers that the standard emitters provide, each under the name that it asks for. Every
name has one body, the names that are put together from the positions of a subsequence included. Behind calls
that provide such helpers only, the code in front of the program under the key of a helper is the one body that
the catalogue has for it, written out with a legal name.
-/

namespace Blockwright

/-- The first helper that is provided with another body than the first one under its name. -/
def mismatch? (provided : List (RawText × RawText)) : Option (RawText × RawText) :=
  provided.find? fun e => provided.lookup e.1 != some e.2

namespace Pass

open Entries

variable {settings : PassSettings}

/-! ## Bodies that differ -/

theorem lookup_concat_of_some {l : List (RawText × RawText)} {key value : RawText} (e : RawText × RawText)
    (h : l.lookup key = some value) : (l ++ [e]).lookup key = some value := by
  rw [List.lookup_append, h, Option.some_or]

/-- A further helper differs when the name was provided with another body. -/
theorem mismatch?_concat (l : List (RawText × RawText)) (e : RawText × RawText) :
    mismatch? (l ++ [e]) = (mismatch? l).or (if (l.lookup e.1).getD e.2 ≠ e.2 then some e else none) := by
  have hold : l.find? (fun x => (l ++ [e]).lookup x.1 != some x.2) = mismatch? l := by
    rw [mismatch?, ← List.head?_filter, ← List.head?_filter]
    refine congrArg List.head? (List.filter_congr fun x hx => ?_)
    obtain ⟨v, hv⟩ := exists_lookup (List.mem_map_of_mem hx)
    rw [lookup_concat_of_some e hv, hv]
  have hnew : ((l ++ [e]).lookup e.1 != some e.2) = decide ((l.lookup e.1).getD e.2 ≠ e.2) := by
    rw [List.lookup_append, lookup_cons_eq, if_pos rfl, Bool.eq_iff_iff]
    cases l.lookup e.1 <;> simp
  rw [mismatch?, List.find?_append, hold, List.find?_singleton, hnew]
  simp

/-! ## What a pass knows behind its calls -/

/-- No helper is asked for under the key of a definition. -/
def Apart (calls : List Call) : Prop :=
  ∀ key ∈ (calls.filterMap Call.definition?).map (·.1), key ∉ (provisions calls).map (·.1)

/-- Each helper asked for is there once, with the body it was first given and a name of its own,
and the code in front of the program is there by key in the order of first use. -/
structure Pooled (settings : PassSettings) (before : Pass) (calls : List Call) (run : List (Call × String))
    (p : Pass) : Prop where
  sound : p.names.Sound
  body : ∀ desired, (p.helpers.lookup desired).map (·.body) = (provisions calls).lookup desired
  used : ∀ desired helper, p.helpers.lookup desired = some helper → helper.name ∈ p.names.used
  own : ∀ desired desired' helper helper', p.helpers.lookup desired = some helper →
    p.helpers.lookup desired' = some helper' → helper.name = helper'.name → desired = desired'
  answered : ∀ desired body name, (.provide desired body, name) ∈ run →
    ∃ helper, p.helpers.lookup desired = some helper ∧ helper.name = name
  failure : p.failure =
    if settings.strict then (mismatch? (provisions calls)).map fun e => .helperMismatch e.1.text else none
  keys : p.definitions.map (·.1) = before.registered calls
  code : ∀ desired helper, p.helpers.lookup desired = some helper →
    p.definitions.lookup desired = some (Emit.helperCode settings.indent helper.name helper.body.text)
  defined : ∀ key, key ∉ (provisions calls).map (·.1) → p.definitions.lookup key = before.lastDefined? calls key

section
variable {before p : Pass} {calls : List Call} {run : List (Call × String)}

theorem registered_concat (before : Pass) (calls : List Call) {c : Call} {key : RawText} (hc : c.key? = some key) :
    before.registered (calls ++ [c]) =
      if key ∈ before.registered calls then before.registered calls else before.registered calls ++ [key] := by
  have hcall : [c].filterMap Call.key? = [key] := by simp [hc]
  simp only [registered, List.mem_eraseDups]
  rw [List.filterMap_append, hcall, ← List.append_assoc, eraseDups_concat]

theorem Pooled.mem_registered (h : Pooled settings before calls run p) {desired : RawText} {helper : Helper}
    (hfound : p.helpers.lookup desired = some helper) : desired ∈ before.registered calls := by
  rw [← h.keys]
  by_contra hno
  have hcode := h.code desired helper hfound
  rw [(lookup_eq_none_iff _ _).2 hno] at hcode
  cases hcode

/-- Calls that only ask for names or reserve words. -/
theorem Pooled.withNames (h : Pooled settings before calls run p) {c : Call} {answer : String} {names : Names}
    (hprovision : c.provision? = none) (hkey : c.key? = none) (hdefinition : c.definition? = none)
    (hsound : names.Sound) (hgrows : p.names.Grows names) :
    Pooled settings before (calls ++ [c]) (run ++ [(c, answer)]) { p with names } := by
  have hprovisions : provisions (calls ++ [c]) = provisions calls := by simp [provisions, hprovision]
  have hregistered : before.registered (calls ++ [c]) = before.registered calls := by simp [registered, hkey]
  have hlast : before.lastDefined? (calls ++ [c]) = before.lastDefined? calls := by
    funext key
    simp [lastDefined?, hdefinition]
  constructor
  case sound => exact hsound
  case body => rw [hprovisions]; exact h.body
  case used => exact fun d helper hd => hgrows.used _ (h.used d helper hd)
  case own => exact h.own
  case answered =>
    intro d body name hmem
    rcases List.mem_append.1 hmem with hmem | hmem
    · exact h.answered d body name hmem
    · rw [← (Prod.mk.inj (List.mem_singleton.1 hmem)).1] at hprovision
      cases hprovision
  case failure => rw [hprovisions]; exact h.failure
  case keys => rw [hregistered]; exact h.keys
  case code => exact h.code
  case defined => rw [hprovisions, hlast]; exact h.defined

/-- A definition under a key that is no helper's. -/
theorem Pooled.define (h : Pooled settings before calls run p) {key : RawText} {code answer : String}
    (hkey : key ∉ (provisions calls).map (·.1)) :
    Pooled settings before (calls ++ [Call.define key code]) (run ++ [(Call.define key code, answer)])
      { p with definitions := setDefinition p.definitions key code } := by
  have hprovisions : provisions (calls ++ [Call.define key code]) = provisions calls := by
    simp [provisions, Call.provision?]
  have hother : ∀ d helper, p.helpers.lookup d = some helper → d ≠ key := by
    rintro d helper hd rfl
    have hbody := h.body d
    rw [hd, (lookup_eq_none_iff _ _).2 hkey] at hbody
    cases hbody
  constructor
  case sound => exact h.sound
  case body => rw [hprovisions]; exact h.body
  case used => exact h.used
  case own => exact h.own
  case answered =>
    intro d body name hmem
    exact h.answered d body name (by simpa using hmem)
  case failure => rw [hprovisions]; exact h.failure
  case keys => rw [setDefinition_eq, keys_put, registered_concat before calls rfl, h.keys]
  case code =>
    intro d helper hd
    rw [setDefinition_eq, lookup_put, if_neg (hother d helper hd)]
    exact h.code d helper hd
  case defined =>
    intro key' hkey'
    rw [hprovisions] at hkey'
    have hlast : before.lastDefined? (calls ++ [Call.define key code]) key' =
        if key' = key then some code else before.lastDefined? calls key' := by
      unfold lastDefined?
      rw [List.filterMap_append, ← List.append_assoc, List.reverse_append]
      exact lookup_cons_eq (key, code) _ key'
    rw [setDefinition_eq, lookup_put, hlast, h.defined key' hkey']

theorem provisions_concat (calls : List Call) (desired : RawText) (body : List RawText) :
    provisions (calls ++ [Call.provide desired body]) = provisions calls ++ [(desired, RawText.joinLines body)] := by
  simp [provisions, Call.provision?]

theorem lastDefined?_provide (before : Pass) (calls : List Call) (desired : RawText) (body : List RawText) :
    before.lastDefined? (calls ++ [Call.provide desired body]) = before.lastDefined? calls := by
  funext key
  rw [lastDefined?, List.filterMap_append, List.filterMap_cons_none rfl, List.filterMap_nil, List.append_nil, lastDefined?]

/-- What is recorded when a helper is provided. -/
theorem failure_concat (h : p.failure = if settings.strict then
      (mismatch? (provisions calls)).map fun e => .helperMismatch e.1.text else none)
    (desired : RawText) (body : List RawText) :
    (if settings.strict then (mismatch? (provisions (calls ++ [Call.provide desired body]))).map fun e =>
        Cause.helperMismatch e.1.text else none) =
      p.failure.or (if settings.strict ∧
          ((provisions calls).lookup desired).getD (.joinLines body) ≠ .joinLines body then
        some (.helperMismatch desired.text) else none) := by
  rw [h, provisions_concat, mismatch?_concat]
  cases settings.strict with
  | false => simp
  | true =>
    simp only [true_and, if_true]
    cases mismatch? (provisions calls) <;> split_ifs <;> simp_all

/-- A helper that was provided before. -/
theorem Pooled.known (h : Pooled settings before calls run p) {desired : RawText} {helper : Helper}
    (body : List RawText) (hfound : p.helpers.lookup desired = some helper) :
    Pooled settings before (calls ++ [Call.provide desired body]) (run ++ [(Call.provide desired body, helper.name)])
      { p with failure := p.failure.or (if settings.strict ∧ helper.body ≠ .joinLines body then
        some (.helperMismatch desired.text) else none) } := by
  have hbody : (provisions calls).lookup desired = some helper.body := by rw [← h.body, hfound, Option.map_some]
  constructor
  case sound => exact h.sound
  case body =>
    intro d
    rw [provisions_concat, List.lookup_append, lookup_cons_eq]
    by_cases hd : d = desired
    · rw [hd, hbody, hfound, Option.some_or, Option.map_some]
    · rw [if_neg hd, List.lookup_nil, Option.or_none, h.body]
  case used => exact h.used
  case own => exact h.own
  case answered =>
    intro d body' name hmem
    rcases List.mem_append.1 hmem with hmem | hmem
    · exact h.answered d body' name hmem
    · obtain ⟨hcall, rfl⟩ := Prod.mk.inj (List.mem_singleton.1 hmem)
      obtain ⟨rfl, -⟩ := Call.provide.inj hcall
      exact ⟨helper, hfound, rfl⟩
  case failure =>
    rw [failure_concat h.failure, hbody]
    rfl
  case keys => rw [registered_concat before calls rfl, if_pos (h.mem_registered hfound), h.keys]
  case code => exact h.code
  case defined =>
    intro key hkey
    rw [lastDefined?_provide]
    refine h.defined key fun hmem => hkey ?_
    rw [provisions_concat, List.map_append]
    exact List.mem_append_left _ hmem

/-- A helper that is new to the pass. -/
theorem Pooled.new (h : Pooled settings before calls run p) {desired : RawText} (body : List RawText) {name : String}
    (hfound : p.helpers.lookup desired = none) (hfree : p.names.free? (Identifier.ofText desired) = some name) :
    Pooled settings before (calls ++ [Call.provide desired body]) (run ++ [(Call.provide desired body, name)])
      { p with
        names := { p.names with used := p.names.used.insert name }
        helpers := p.helpers ++ [(desired, ⟨name, .joinLines body⟩)]
        definitions := setDefinition p.definitions desired
          (Emit.helperCode settings.indent name (RawText.joinLines body).text) } := by
  have hbody : (provisions calls).lookup desired = none := by rw [← h.body, hfound, Option.map_none]
  have hlookup : ∀ d, (p.helpers ++ [(desired, (⟨name, .joinLines body⟩ : Helper))]).lookup d =
      if d = desired then some ⟨name, .joinLines body⟩ else p.helpers.lookup d := by
    intro d
    rw [List.lookup_append, lookup_cons_eq]
    split_ifs with hd
    · rw [hd, hfound, Option.none_or]
    · rw [List.lookup_nil, Option.or_none]
  -- the name is fresh, so it is no other helper's
  have hfresh : ∀ d helper, p.helpers.lookup d = some helper → helper.name ≠ name := by
    rintro d helper hd rfl
    exact (Names.free_of_free? hfree).1 (h.used d helper hd)
  constructor
  case sound => exact h.sound.insert_used (Names.isLegal_of_free? hfree)
  case body =>
    intro d
    rw [hlookup, provisions_concat, List.lookup_append, lookup_cons_eq]
    split_ifs with hd
    · rw [hd, hbody, Option.none_or, Option.map_some]
    · rw [List.lookup_nil, Option.or_none, h.body]
  case used =>
    intro d helper hd
    rw [hlookup] at hd
    split_ifs at hd with hnew
    · obtain rfl := Option.some.inj hd
      exact Std.HashSet.mem_insert_self
    · exact Std.HashSet.mem_insert.2 (.inr (h.used d helper hd))
  case own =>
    intro d d' helper helper' hd hd' hname
    rw [hlookup] at hd hd'
    split_ifs at hd hd' with hnew hnew' hnew'
    · rw [hnew, hnew']
    · obtain rfl := Option.some.inj hd
      exact absurd hname.symm (hfresh d' helper' hd')
    · obtain rfl := Option.some.inj hd'
      exact absurd hname (hfresh d helper hd)
    · exact h.own d d' helper helper' hd hd' hname
  case answered =>
    intro d body' name' hmem
    rw [hlookup]
    rcases List.mem_append.1 hmem with hmem | hmem
    · obtain ⟨helper, hd, hname⟩ := h.answered d body' name' hmem
      have hne : d ≠ desired := by
        rintro rfl
        rw [hfound] at hd
        cases hd
      exact ⟨helper, by rw [if_neg hne, hd], hname⟩
    · obtain ⟨hcall, rfl⟩ := Prod.mk.inj (List.mem_singleton.1 hmem)
      obtain ⟨rfl, -⟩ := Call.provide.inj hcall
      exact ⟨_, if_pos rfl, rfl⟩
  case failure =>
    rw [failure_concat h.failure, hbody]
    simp
  case keys => rw [setDefinition_eq, keys_put, registered_concat before calls rfl, h.keys]
  case code =>
    intro d helper hd
    rw [hlookup] at hd
    rw [setDefinition_eq, lookup_put]
    split_ifs at hd ⊢ with hnew
    · obtain rfl := Option.some.inj hd
      rfl
    · exact h.code d helper hd
  case defined =>
    intro key hkey
    rw [provisions_concat, List.map_append, List.mem_append, not_or] at hkey
    have hne : key ≠ desired := by simpa using hkey.2
    rw [setDefinition_eq, lookup_put, if_neg hne, lastDefined?_provide]
    exact h.defined key hkey.1

theorem Apart.of_concat {c : Call} (h : Apart (calls ++ [c])) : Apart calls := by
  intro key hkey hmem
  refine h key ?_ ?_
  · rw [List.filterMap_append, List.map_append]
    exact List.mem_append_left _ hkey
  · rw [provisions, List.filterMap_append, List.map_append]
    exact List.mem_append_left _ hmem

/-- Every call keeps the pool, as long as names are left. -/
theorem Pooled.serve (h : Pooled settings before calls run p) {c : Call} (hapart : Apart (calls ++ [c]))
    (hnames : (p.serve settings c).2.names.failure = none) :
    Pooled settings before (calls ++ [c]) (run ++ [(c, (p.serve settings c).1)]) (p.serve settings c).2 := by
  cases c with
  | provide desired body =>
    cases hfound : p.helpers.lookup desired with
    | some helper =>
      rw [serve_known body hfound]
      exact h.known body hfound
    | none =>
      have hserve : p.serve settings (.provide desired body) = _ := serve_provide p desired body
      rw [hfound] at hserve
      rw [hserve] at hnames ⊢
      rcases Names.distinct_cases p.names desired .procedure with ⟨name, hfree, hd⟩ | ⟨-, hd⟩
      · rw [hd]
        exact h.new body hfound hfree
      · rw [hd] at hnames
        exact absurd hnames (by simp)
  | name key category =>
    exact h.withNames rfl rfl rfl (h.sound.serve (.get key category)) (Names.grows_get p.names key category)
  | distinct seed category =>
    exact h.withNames rfl rfl rfl (h.sound.serve (.distinct seed category)) (Names.grows_distinct p.names seed category)
  | reserve words =>
    exact h.withNames rfl rfl rfl (h.sound.serve (.reserve words)) (Names.grows_serve p.names (r := .reserve words) (by simp))
  | define key code =>
    refine h.define fun hmem => hapart key ?_ ?_
    · simp [Call.definition?]
    · simpa [provisions, Call.provision?] using hmem

/-! ## What the pool tells -/

theorem Pooled.name_eq_iff (h : Pooled settings before calls run p) {desired desired' : RawText}
    {body body' : List RawText} {name name' : String} (hmem : (.provide desired body, name) ∈ run)
    (hmem' : (.provide desired' body', name') ∈ run) : name = name' ↔ desired = desired' := by
  obtain ⟨helper, hd, rfl⟩ := h.answered desired body name hmem
  obtain ⟨helper', hd', rfl⟩ := h.answered desired' body' name' hmem'
  constructor
  · exact h.own desired desired' helper helper' hd hd'
  · rintro rfl
    rw [hd] at hd'
    rw [Option.some.inj hd']

/-- The code in front of the program under a key. -/
def codeAt (p : Pass) (key : RawText) : String := (p.definitions.lookup key).getD ""

theorem eq_map_codeAt {definitions : List (RawText × String)} (hkeys : (definitions.map (·.1)).Nodup) :
    definitions = (definitions.map (·.1)).map fun key => (key, (definitions.lookup key).getD "") := by
  induction definitions with
  | nil => rfl
  | cons d definitions ih =>
    rw [List.map_cons, List.nodup_cons] at hkeys
    rw [List.map_cons, List.map_cons, lookup_cons_eq, if_pos rfl]
    refine congrArg (d :: ·) ((ih hkeys.2).trans (List.map_congr_left fun key hkey => ?_))
    have hne : key ≠ d.1 := fun he => hkeys.1 (he ▸ hkey)
    rw [lookup_cons_eq, if_neg hne]

theorem Pooled.definitions_eq (h : Pooled settings before calls run p) :
    p.definitions = (before.registered calls).map fun key => (key, p.codeAt key) := by
  have hnodup : (p.definitions.map (·.1)).Nodup := by
    rw [h.keys]
    exact nodup_eraseDups _
  rw [← h.keys]
  exact eq_map_codeAt hnodup

theorem Pooled.finish_eq (h : Pooled settings before calls run p) (program : String) :
    (p.finish program).1 =
      Text.joinWith "\n\n" ((before.registered calls).map p.codeAt) ++ "\n\n\n" ++ program := by
  have hcodes : p.definitions.map (·.2) = (before.registered calls).map p.codeAt := by
    rw [h.definitions_eq, List.map_map]
    rfl
  rw [finish, hcodes]

theorem Pooled.written (h : Pooled settings before calls run p) {desired : RawText} {body : List RawText}
    {name : String} (hmem : (.provide desired body, name) ∈ run) : desired ∈ before.registered calls ∧
      ∃ first, (provisions calls).lookup desired = some first ∧
        Emit.WrittenFrom settings.indent name first.text (p.codeAt desired) := by
  obtain ⟨helper, hd, rfl⟩ := h.answered desired body name hmem
  refine ⟨h.mem_registered hd, helper.body, by rw [← h.body, hd, Option.map_some], ?_⟩
  rw [codeAt, h.code desired helper hd]
  exact Emit.writtenFrom_helperCode _ _ _

theorem Pooled.lastDefined?_eq (h : Pooled settings before calls run p) {key : RawText}
    (hkey : key ∈ before.registered calls) (hother : key ∉ (provisions calls).map (·.1)) :
    before.lastDefined? calls key = some (p.codeAt key) := by
  rw [← h.keys] at hkey
  obtain ⟨code, hcode⟩ := exists_lookup hkey
  rw [← h.defined key hother, codeAt, hcode, Option.getD_some]

theorem mismatch?_eq_none_iff {provided : List (RawText × RawText)} :
    mismatch? provided = none ↔ ∀ e ∈ provided, provided.lookup e.1 = some e.2 := by
  simp [mismatch?]

theorem Pooled.failure?_eq (h : Pooled settings before calls run p) (hnames : p.names.failure = none) :
    p.failure? =
      if settings.strict then (mismatch? (provisions calls)).map fun e => .helperMismatch e.1.text else none := by
  rw [failure?, hnames, h.failure, Option.map_none, Option.or_none]

theorem Pooled.failure_is_mismatch (h : Pooled settings before calls run p) (hnames : p.names.failure = none)
    {cause : Cause} (hcause : p.failure? = some cause) : ∃ desired, cause = .helperMismatch desired := by
  rw [h.failure?_eq hnames] at hcause
  split_ifs at hcause
  obtain ⟨e, -, rfl⟩ := Option.map_eq_some_iff.1 hcause
  exact ⟨_, rfl⟩

/-- A strict pass fails exactly when some helper was given two bodies. -/
theorem Pooled.failure_iff (h : Pooled settings before calls run p) (hnames : p.names.failure = none) :
    (∃ desired, p.failure? = some (.helperMismatch desired)) ↔
      settings.strict = true ∧ ∃ e ∈ provisions calls, (provisions calls).lookup e.1 ≠ some e.2 := by
  have hsome : (∃ e ∈ provisions calls, (provisions calls).lookup e.1 ≠ some e.2) ↔
      mismatch? (provisions calls) ≠ none := by
    rw [Ne, mismatch?_eq_none_iff]
    push Not
    rfl
  rw [h.failure?_eq hnames, hsome]
  cases settings.strict with
  | false => simp
  | true => cases mismatch? (provisions calls) <;> simp

end

/-- A pass with no helpers, no failure on record and at most one definition. -/
theorem pooled_nil {before : Pass} (hsound : before.names.Sound) (hhelpers : before.helpers = [])
    (hfailure : before.failure = none) (hdefinitions : before.definitions = [] ∨ ∃ e, before.definitions = [e]) :
    Pooled settings before [] [] before := by
  constructor
  case sound => exact hsound
  case body => simp [hhelpers, provisions]
  case used => simp [hhelpers]
  case own => simp [hhelpers]
  case answered => simp
  case failure => simp [hfailure, provisions, mismatch?]
  case keys => rcases hdefinitions with h | ⟨e, h⟩ <;> simp [registered, h, List.eraseDups_cons]
  case code => simp [hhelpers]
  case defined =>
    intro key _
    rcases hdefinitions with h | ⟨e, h⟩ <;> simp [lastDefined?, h]

/-- Behind any run of calls that leaves names the pool holds what the calls asked for. -/
theorem pooled_after {before : Pass} (hstart : Pooled settings before [] [] before) {calls : List Call}
    (hapart : Apart calls) (hnames : (before.after settings calls).names.failure = none) :
    Pooled settings before calls (before.trace settings calls) (before.after settings calls) := by
  induction calls using List.reverseRecOn with
  | nil => exact hstart
  | append_singleton calls c ih =>
    rw [after_concat] at hnames ⊢
    rw [trace_concat]
    exact (ih hapart.of_concat ((grows_serve _ c).failure_none hnames)).serve hapart hnames

/-- A helper that is provided again takes no further name. -/
theorem names_provide_twice {n : Names} {desired : RawText} {name : String}
    (hfree : n.free? (Identifier.ofText desired) = some name) (body body' : List RawText) :
    (Pass.after settings { names := n } [.provide desired body, .provide desired body']).names.failure = n.failure := by
  rcases Names.distinct_cases n desired .procedure with ⟨name', -, hd⟩ | ⟨hnone, -⟩
  · have hfirst : ({ names := n } : Pass).serve settings (.provide desired body) = (name',
        { names := { n with used := n.used.insert name' }
          helpers := [(desired, ⟨name', .joinLines body⟩)]
          definitions := setDefinition [] desired
            (Emit.helperCode settings.indent name' (RawText.joinLines body).text) }) := by
      rw [serve_provide]
      dsimp only [List.lookup_nil]
      rw [hd]
      rfl
    rw [after, List.foldl_cons, List.foldl_cons, List.foldl_nil, hfirst, serve_known]
    rw [lookup_cons_eq, if_pos rfl]
  · rw [hfree] at hnone
    cases hnone

end Pass

namespace Generator

open Entries Pass

theorem pooled_start {g : Generator} {ws : Workspace} {before : Pass} (h : g.start ws = .ok before) :
    Pooled (g.settings ws) before [] [] before := by
  have hsound := (contained_start h).1.sound
  unfold start at h
  dsimp only at h
  split at h
  · cases h
  · cases h
    refine pooled_nil hsound rfl rfl ?_
    dsimp only
    split
    · exact .inl rfl
    · exact .inr ⟨_, rfl⟩

/-- A pass keeps a pool of helpers. Behind any calls, as long as names are left and no definition
has the key of a helper: helpers have one name exactly when they are asked for by one name; there
is one definition for each, the body it was first given, written out with its name; the
definitions stand in front of the program in the order of first use; and a strict pass has a
failure on record exactly when a helper was given another body than its first one. -/
theorem helpers_pooled {g : Generator} {ws : Workspace} {before : Pass} (hstart : g.start ws = .ok before)
    {calls : List Call} (hapart : Apart calls)
    (hnames : (before.after (g.settings ws) calls).names.failure = none) :
    let run := before.trace (g.settings ws) calls
    let p := before.after (g.settings ws) calls
    let keys := before.registered calls
    let provided := provisions calls
    (∀ desired body name desired' body' name', (.provide desired body, name) ∈ run →
      (.provide desired' body', name') ∈ run → (name = name' ↔ desired = desired')) ∧
    keys.Nodup ∧ p.definitions = keys.map (fun key => (key, p.codeAt key)) ∧
    (∀ desired body name, (.provide desired body, name) ∈ run → desired ∈ keys ∧
      ∃ first, provided.lookup desired = some first ∧
        Emit.WrittenFrom g.indent name first.text (p.codeAt desired)) ∧
    (∀ key ∈ keys, key ∉ provided.map (·.1) → before.lastDefined? calls key = some (p.codeAt key)) ∧
    (∀ program, (p.finish program).1 = Text.joinWith "\n\n" (keys.map p.codeAt) ++ "\n\n\n" ++ program) ∧
    (∀ cause, p.failure? = some cause → ∃ desired, cause = .helperMismatch desired) ∧
    ((∃ desired, p.failure? = some (.helperMismatch desired)) ↔
      g.strict = true ∧ ∃ e ∈ provided, provided.lookup e.1 ≠ some e.2) := by
  intro run p keys provided
  have h : Pooled (g.settings ws) before calls run p := pooled_after (pooled_start hstart) hapart hnames
  refine ⟨?_, nodup_eraseDups _, h.definitions_eq, ?_, ?_, h.finish_eq, ?_, h.failure_iff hnames⟩
  · intro desired body name desired' body' name'
    exact h.name_eq_iff
  · intro desired body name
    exact h.written
  · intro key
    exact h.lastDefined?_eq
  · intro cause
    exact h.failure_is_mismatch hnames

/-- A body for a helper. -/
def firstBody : List String := ["function \x7bfunctionName\x7d() \x7b", "  return 1;", "\x7d"]

/-- Another body for the same helper. -/
def otherBody : List String := ["function \x7bfunctionName\x7d() \x7b", "  return 2;", "\x7d"]

/-- A helper that is provided twice, with two bodies. -/
def twoBodies : List Call :=
  [.provide "pad0" (firstBody.map .ofString), .provide "pad0" (otherBody.map .ofString)]

theorem names_twoBodies :
    (Pass.after (Generator.settings { strict := true } {}) { names := Generator.startNames { strict := true } {} }
      twoBodies).names.failure = none := by
  have hid : Identifier.ofText "pad0" = "pad0" := by
    rw [Identifier.ofText, RawText.bytes_ofString, Text.bytesOf_eq]
    decide
  have hfree : (Generator.startNames { strict := true } {}).free? (Identifier.ofText "pad0") = some "pad0" := by
    rw [hid]
    have hzero : '0' ∈ "pad0".toList := by decide
    exact Names.free?_startNames hzero rfl rfl
  rw [twoBodies, names_provide_twice hfree]
  exact failure_startNames _ _

/-- In a strict pass the two bodies are told apart. -/
theorem twoBodies_mismatch :
    Generator.start { strict := true } {} = .ok { names := Generator.startNames { strict := true } {} } ∧
      Apart twoBodies ∧
      ∃ desired, (Pass.after (Generator.settings { strict := true } {})
        { names := Generator.startNames { strict := true } {} } twoBodies).failure? = some (.helperMismatch desired) := by
  have hstart : Generator.start { strict := true } {} = .ok { names := Generator.startNames { strict := true } {} } :=
    start_of_no_keys rfl
  have hapart : Apart twoBodies := by simp [Apart, twoBodies, Call.definition?]
  have hbodies : RawText.joinLines (firstBody.map .ofString) ≠ .joinLines (otherBody.map .ofString) := by
    rw [RawText.joinLines_ofString, RawText.joinLines_ofString]
    intro h
    have htexts := congrArg RawText.text h
    rw [RawText.text_ofString, RawText.text_ofString] at htexts
    exact absurd htexts (by decide)
  have hpool := helpers_pooled hstart hapart names_twoBodies
  refine ⟨hstart, hapart, hpool.2.2.2.2.2.2.2.2 ⟨rfl, ("pad0", .joinLines (otherBody.map .ofString)), ?_, ?_⟩⟩
  · simp [provisions, twoBodies, Call.provision?]
  · have hprovided : provisions twoBodies = [(.ofString "pad0", .joinLines (firstBody.map .ofString)),
        (.ofString "pad0", .joinLines (otherBody.map .ofString))] := rfl
    rw [hprovided, lookup_cons_eq, if_pos rfl]
    exact fun h => hbodies (Option.some.inj h)

end Generator

/-! ## The catalogue -/

namespace Emit.Helpers

/-- The helpers with a name and a body of their own. -/
def single : List (String × List String) := [
  ("mathIsPrime", mathIsPrime), ("mathRandomInt", mathRandomInt), ("listsRepeat", listsRepeat),
  ("listsGetRandomItem", listsGetRandomItem), ("listsGetSortCompare", listsGetSortCompare),
  ("textRandomLetter", textRandomLetter), ("textToTitleCase", textToTitleCase), ("textCount", textCount),
  ("textReplace", textReplace), ("colourRandom", colourRandom), ("colourRgb", colourRgb), ("colourBlend", colourBlend)]

/-- The helpers that slice, for every pair of positions. -/
def subsequences : List (String × List String) :=
  whereNames.flatMap fun first => whereNames.map fun last =>
    (subsequenceName first.1 last.1, subsequence first.1 last.1)

/-- All helpers, by the name that each asks for. -/
def catalogue : List (String × List String) := single ++ listReducers.map (·.2) ++ subsequences

theorem nodup_catalogue : (catalogue.map (·.1)).Nodup := by decide +kernel

/-- A name has one body. -/
theorem body_unique {name : String} {body body' : List String} (h : (name, body) ∈ catalogue)
    (h' : (name, body') ∈ catalogue) : body = body' :=
  congrArg Prod.snd (List.inj_on_of_nodup_map nodup_catalogue h h' rfl)

/-- No helper goes by the key of the variables. -/
theorem ne_variables : ∀ e ∈ catalogue, e.1 ≠ "variables" := by decide +kernel

theorem mem_catalogue_of_single {e : String × List String} (h : e ∈ single) : e ∈ catalogue :=
  List.mem_append_left _ (List.mem_append_left _ h)

theorem mem_catalogue_of_listReducer {e : String × String × List String} (h : e ∈ listReducers) : e.2 ∈ catalogue :=
  List.mem_append_left _ (List.mem_append_right _ (List.mem_map_of_mem h))

theorem mem_catalogue_subsequence {first last name name' : String} (hfirst : whereNames.lookup first = some name)
    (hlast : whereNames.lookup last = some name') :
    (subsequenceName first last, subsequence first last) ∈ catalogue := by
  refine List.mem_append_right _ (List.mem_flatMap.2 ⟨_, mem_of_lookup hfirst, ?_⟩)
  exact List.mem_map.2 ⟨_, mem_of_lookup hlast, rfl⟩

end Emit.Helpers

/-! ## Helpers in stock -/

open Emit Entries

/-- The call provides a helper of the catalogue, or puts no code under the key of one. -/
def Call.Stocked : Call → Prop
  | .provide desired body => ∃ e ∈ Helpers.catalogue, desired = .ofString e.1 ∧ body = e.2.map .ofString
  | .define key _ => ∀ e ∈ Helpers.catalogue, key ≠ .ofString e.1
  | _ => True

section
variable {calls : List Call} (h : ∀ c ∈ calls, c.Stocked)
include h

theorem mem_catalogue_of_mem_provisions {d : RawText × RawText} (hd : d ∈ provisions calls) :
    ∃ e ∈ Helpers.catalogue, d = (.ofString e.1, .ofString (Text.joinWith "\n" e.2)) := by
  obtain ⟨c, hc, hcd⟩ := List.mem_filterMap.1 hd
  have hstocked := h c hc
  cases c with
  | provide desired body =>
    obtain ⟨e, he, rfl, rfl⟩ := hstocked
    refine ⟨e, he, ?_⟩
    rw [← Option.some.inj hcd, RawText.joinLines_ofString]
  | _ => cases hcd

theorem Pass.apart_of_stocked : Pass.Apart calls := by
  intro key hkey hmem
  obtain ⟨⟨_, code⟩, hdefinition, rfl⟩ := List.mem_map.1 hkey
  obtain ⟨c, hc, hcd⟩ := List.mem_filterMap.1 hdefinition
  obtain ⟨d, hd, hdkey⟩ := List.mem_map.1 hmem
  obtain ⟨e, he, rfl⟩ := mem_catalogue_of_mem_provisions h hd
  have hstocked := h c hc
  cases c with
  | define key code =>
    obtain ⟨rfl, rfl⟩ := Prod.mk.inj (Option.some.inj hcd)
    exact hstocked e he hdkey.symm
  | _ => cases hcd

theorem lookup_provisions {desired : String} {body : List String} (hentry : (desired, body) ∈ Helpers.catalogue)
    (hmem : .ofString desired ∈ (provisions calls).map (·.1)) :
    (provisions calls).lookup (.ofString desired) = some (.ofString (Text.joinWith "\n" body)) := by
  obtain ⟨first, hfirst⟩ := exists_lookup hmem
  obtain ⟨⟨desired', body'⟩, he, hsame⟩ := mem_catalogue_of_mem_provisions h (mem_of_lookup hfirst)
  obtain ⟨hname, rfl⟩ := Prod.mk.inj hsame
  obtain rfl := RawText.ofString_inj.1 hname
  rw [hfirst, Helpers.body_unique hentry he]

/-- A helper that was provided is written in front of the program as the catalogue has it. -/
theorem Pass.Pooled.code_of_stocked {settings : PassSettings} {before p : Pass} {run : List (Call × String)}
    (hpool : Pooled settings before calls run p) {desired : String} {body : List String} {name : String}
    (hentry : (desired, body) ∈ Helpers.catalogue)
    (hmem : (.provide (.ofString desired) (body.map .ofString), name) ∈ run) :
    Identifier.isLegal name = true ∧
      p.codeAt (.ofString desired) = helperCode settings.indent name (Text.joinWith "\n" body) := by
  obtain ⟨helper, hd, rfl⟩ := hpool.answered _ _ _ hmem
  have hprovided : .ofString desired ∈ (provisions calls).map (·.1) := by
    by_contra hno
    have hbody := hpool.body (.ofString desired)
    rw [hd, (lookup_eq_none_iff _ _).2 hno] at hbody
    cases hbody
  have hbody := hpool.body (.ofString desired)
  rw [hd, lookup_provisions h hentry hprovided, Option.map_some] at hbody
  refine ⟨hpool.sound.legal _ (hpool.used _ helper hd), ?_⟩
  rw [codeAt, hpool.code _ helper hd, Option.getD_some, Option.some.inj hbody, RawText.text_ofString]

end

end Blockwright
