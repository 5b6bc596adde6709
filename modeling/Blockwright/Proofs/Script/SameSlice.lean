import Blockwright.Proofs.Emit.HelperPool
import Blockwright.Proofs.Names.Requests
import Blockwright.Proofs.Program.Start
import Blockwright.Proofs.Script.Slicing
/-!
# One slice for both ways

A slice that is taken directly and one that is taken by the helper are refused for the same options.
Where they are emitted, they call `slice` on the same sequence with the same start and end: the code
of the one says so itself, that of the other with the helper that stands in front of the program.
-/

namespace Blockwright

open Operators Emit Script

variable {settings : PassSettings}

/-! ## Leaves as calls -/

/-- The call that asks for the name of a leaf. -/
def Operators.Leaf.call? : Leaf → Option Call
  | .literal .. => none
  | .named key => some (.name key .variable)

theorem Pass.asking_eq_after (settings : PassSettings) (p : Pass) (ls : List Leaf) :
    p.asking ls = p.after settings (ls.filterMap Leaf.call?) := by
  induction ls generalizing p with
  | nil => rfl
  | cons l ls ih =>
    have hfirst : p.asking (l :: ls) = (p.asking [l]).asking ls := p.asking_append [l] ls
    rw [hfirst, ih]
    cases l <;> rfl

theorem stocked_of_mem_leaves {ls : List Leaf} : ∀ c ∈ ls.filterMap Leaf.call?, c.Stocked := by
  intro c hc
  obtain ⟨l, -, hl⟩ := List.mem_filterMap.1 hc
  cases l with
  | literal => cases hl
  | named key =>
    cases hl
    trivial

/-- Behind the names of leaves, a helper of the catalogue has a legal name and is written as the catalogue has it. -/
theorem Pass.code_of_supplied {before q : Pass} (hstart : Pooled settings before [] [] before) {calls : List Call}
    (hcalls : ∀ c ∈ calls, c.Stocked) {ls : List Leaf} {desired : String} {body : List String} {name : String}
    (hentry : (desired, body) ∈ Helpers.catalogue)
    (hserve : ((before.after settings calls).asking ls).serve settings
      (.provide (.ofString desired) (body.map .ofString)) = (name, q)) (hnames : q.names.failure = none) :
    Identifier.isLegal name = true ∧
      q.codeAt (.ofString desired) = helperCode settings.indent name (Text.joinWith "\n" body) := by
  have happend : ∀ calls', (before.after settings calls).after settings calls' = before.after settings (calls ++ calls') :=
    fun calls' => List.foldl_append.symm
  rw [asking_eq_after settings, happend] at hserve
  generalize hasked : calls ++ ls.filterMap Leaf.call? = asked at hserve
  have hall : ∀ c ∈ asked ++ [Call.provide (.ofString desired) (body.map .ofString)], c.Stocked := by
    rw [← hasked]
    simp only [List.forall_mem_append, List.forall_mem_singleton]
    exact ⟨⟨hcalls, stocked_of_mem_leaves⟩, _, hentry, rfl, rfl⟩
  have hafter : before.after settings (asked ++ _) = _ :=
    after_concat before asked (.provide (.ofString desired) (body.map .ofString))
  have htrace : before.trace settings (asked ++ _) = _ :=
    trace_concat before asked (.provide (.ofString desired) (body.map .ofString))
  rw [hserve] at hafter htrace
  have hpool := pooled_after hstart (apart_of_stocked hall) (hafter ▸ hnames)
  rw [hafter, htrace] at hpool
  exact hpool.code_of_stocked hall hentry (by simp)

/-- There is a helper for every pair of places. -/
theorem Spot.mem_catalogue (start stop : Spot) :
    (Helpers.subsequenceName start.option stop.option, Helpers.subsequence start.option stop.option) ∈ Helpers.catalogue := by
  have hnamed : ∀ spot : Spot, ∃ name, Helpers.whereNames.lookup spot.option = some name := by
    intro spot
    cases spot <;> exact ⟨_, rfl⟩
  obtain ⟨first, hfirst⟩ := hnamed start
  obtain ⟨last, hlast⟩ := hnamed stop
  exact Helpers.mem_catalogue_subsequence hfirst hlast

namespace Script

/-! ## What code slices -/

/-- The sequence and the arguments that code calls `slice` with. -/
def directly? (code : String) (m : Memory) : Option (Value × List Value) := (Expr.ofCode? code).bind (·.sliced? m)

/-- The sequence and the arguments that code calls `slice` with by calling the function of other code. -/
def through? (function call : String) (m : Memory) : Option (Value × List Value) := do
  let f ← Function.ofCode? function
  let a ← Expr.ofCode? call
  f.sliced? a m

/-- What a slice finds: a sequence of `n`, and the indexes that its places take. -/
structure Sliceable (m : Memory) (a : Expr) (start stop : Spot) (index1 index2 : String) (v : Value) (n : Nat)
    (i j : Int) : Prop where
  sequence : a.eval m = some (v, m)
  length : m.property? v "length" = some (.number n)
  start : start.isCounted = true → m.values index1 = some (.number i)
  stop : stop.isCounted = true → m.values index2 = some (.number j)

variable {index1 index2 name : String} {a : Expr} {start stop : Spot} {m : Memory} {v : Value} {n : Nat} {i j : Int}

theorem directly?_code (base : Int) (ha : ∀ x ∈ a.words, Identifier.isLegal x = true)
    (hstart : start.isCounted = true → Identifier.isLegal index1 = true)
    (hstop : stop.isCounted = true → Identifier.isLegal index2 = true)
    (h : Sliceable m a start stop index1 index2 v n i j) :
    directly? (directCall base index1 index2 a start stop).code m =
      some (v, [.number (start.position base n i), .number (stop.position base n j + 1)]) := by
  rw [directly?, Expr.ofCode?_code (isLegal_directCall ha hstart hstop), Option.bind_some]
  exact sliced_directCall h.start h.stop h.sequence h.length

theorem through?_code (base : Int) (ha : ∀ x ∈ a.words, Identifier.isLegal x = true) (hname : Identifier.isLegal name = true)
    (hstart : start.isCounted = true → Identifier.isLegal index1 = true)
    (hstop : stop.isCounted = true → Identifier.isLegal index2 = true)
    {indent : String} (hindent : ∀ c ∈ indent.toList, Text.isCodeBlank c = true)
    (h : Sliceable m a start stop index1 index2 v n i j) :
    through? (helperCode indent name (Text.joinWith "\n" (Helpers.subsequence start.option stop.option)))
      (helperCall base name index1 index2 a start stop).code m =
      some (v, [.number (start.position base n i), .number (stop.position base n j + 1)]) := by
  have hfunction : Function.ofCode?
      (helperCode indent name (Text.joinWith "\n" (Helpers.subsequence start.option stop.option))) =
      some (subsequence name start stop) := by
    have hlegal : (subsequence name start stop).IsLegal := isLegal_subsequence hname start stop
    have hcode := Function.helperCode_body hlegal indent
    rw [body_subsequence] at hcode
    exact (congrArg Function.ofCode? hcode).trans (Function.ofCode?_code hlegal (List.cons_ne_nil _ _) hindent)
  rw [through?, hfunction, Expr.ofCode?_code (isLegal_helperCall ha hstart hstop hname)]
  exact sliced_helperCall h.start h.stop h.sequence h.length

end Script

namespace Block

variable {b : Block} {p : Pass}

/-! ## Refusals -/

theorem run_unhandled {α : Type} (b : Block) (field : String) (p : Pass) :
    ((b.site standard).unhandled field : Emit α).run settings p = (.error (b.refusal field), p) := rfl

/-- What refuses the options of a block and else fails only for want of a name is refused for these options only. -/
theorem refuses_iff {x : Emit String} (hrefused : ∀ field, b.slicePlaces = .error field →
      ∃ q, x.run settings p = (.error (b.refusal field), q))
    (hends : ∀ start stop, b.slicePlaces = .ok (start, stop) → ∃ Q ls, Ends settings p x Q (p.Exhausts ls)) (field : String) :
    (∃ q, x.run settings p = (.error (b.refusal field), q)) ↔ b.slicePlaces = .error field := by
  refine ⟨fun ⟨q, hrun⟩ => ?_, hrefused field⟩
  cases hplaces : b.slicePlaces with
  | error other =>
    obtain ⟨q', hrun'⟩ := hrefused other hplaces
    have hsame : b.refusal field = b.refusal other := Except.error.inj (Prod.mk.inj (hrun.symm.trans hrun')).1
    exact congrArg Except.error (Cause.unhandledOption.inj (congrArg Failure.cause hsame)).2.1.symm
  | ok spots =>
    obtain ⟨Q, ls, hends⟩ := hends spots.1 spots.2 hplaces
    rw [Ends, hrun] at hends
    obtain ⟨e, hcause, -⟩ := hends
    cases hcause

theorem run_directSlice_refused {a : Expr} (ha : a.isUse = true) {index1 : RawText}
    (hindex1 : b.HoldsIndex "WHERE1" "AT1" index1) (hsound : p.names.Sound) (hclean : p.failure? = none)
    (hnames : (p.asking [.named index1]).names.failure = none) {field : String} (h : b.slicePlaces = .error field) :
    ∃ q, (directSlice (b.site standard) a.code).run settings p = (.error (b.refusal field), q) := by
  unfold directSlice
  rw [run_bind]
  rcases slicePlaces_eq_error h with ⟨rfl, hstart⟩ | ⟨rfl, ⟨start, hstart⟩, hstop⟩
  · rw [sliceStart_refused hstart, run_unhandled]
    exact ⟨_, rfl⟩
  · have hleaves : (p.asking (start.leaves index1)).names.failure = none := by
      unfold Spot.leaves
      split
      · exact hnames
      · exact (Pass.failure?_eq_none.1 hclean).2
    have hgives : Gives settings (sliceStart (b.site standard) a.code) (start.leaves index1) _ :=
      gives_sliceStart ha hindex1 hstart
    obtain ⟨low, q, hrun, -⟩ := (hgives.ends p hsound hclean).run_ok hleaves
    rw [hrun]
    dsimp only
    rw [run_bind, sliceEnd_refused hstop, run_unhandled]
    exact ⟨_, rfl⟩

/-! ## Agreement -/

/-- Behind the names of leaves, a variable that is one of them has a legal name. -/
theorem isLegal_text_asking {ls : List Leaf} (hsound : p.names.Sound) (hclean : (p.asking ls).failure? = none) {key : RawText}
    (hkey : .named key ∈ ls) : Identifier.isLegal ((Leaf.named key).text (p.asking ls).names) = true :=
  (known_requests hsound (Pass.failure?_eq_none.1 hclean).2 _ hkey).isLegal_text (hsound.after _)

/-- Its name stays when the pass serves a call. -/
theorem text_serve (settings : PassSettings) {ls : List Leaf} (hsound : p.names.Sound)
    (hclean : (p.asking ls).failure? = none) {key : RawText} (hkey : .named key ∈ ls) (c : Call) :
    (Leaf.named key).text ((p.asking ls).serve settings c).2.names = (Leaf.named key).text (p.asking ls).names := by
  have hknown : (Leaf.named key).Known (p.asking ls).names := known_requests hsound (Pass.failure?_eq_none.1 hclean).2 _ hkey
  exact (hknown.mono (Pass.grows_serve _ c) (Pass.idNames_serve _ c)).2

/-- The variable of an index that a place takes is one of the leaves. -/
theorem HoldsIndex.mem_leaves {field socket : String} {key : RawText} {spot : Spot} (h : b.HoldsIndex field socket key)
    (hoption : b.head.field field = spot.option) (hcounted : spot.isCounted = true) :
    .named key ∈ b.indexLeaves socket key := by
  have hvariable : b.HoldsVariable socket key := h.holdsVariable (by rw [hoption, takesIndex_option, hcounted])
  rw [hvariable.indexLeaves_eq]
  exact List.mem_singleton_self _

/-- Behind the call that provides the helper, the code that is emitted slices by it, under the names that the pass
has then. -/
theorem through?_of_served {before q : Pass} (hstart : Pass.Pooled settings before [] [] before) {calls : List Call}
    (hcalls : ∀ c ∈ calls, c.Stocked) (hsound : (before.after settings calls).names.Sound) {ls : List Leaf}
    (hclean : ((before.after settings calls).asking ls).failure? = none) {index1 index2 : RawText} {start stop : Spot}
    (hstart1 : start.isCounted = true → .named index1 ∈ ls) (hstop2 : stop.isCounted = true → .named index2 ∈ ls)
    {name : String} (hserve : ((before.after settings calls).asking ls).serve settings (start.provision stop) = (name, q))
    (hdone : q.failure? = none) (hindent : ∀ c ∈ settings.indent.toList, Text.isCodeBlank c = true) {a : Expr}
    (hwords : ∀ x ∈ a.words, Identifier.isLegal x = true) {m : Memory} {v : Value} {n : Nat} {i j : Int} (base : Int)
    (h : Sliceable m a start stop ((Leaf.named index1).text q.names) ((Leaf.named index2).text q.names) v n i j) :
    through? (q.codeAt (start.helperKey stop)) (helperCall base name
      ((Leaf.named index1).text ((before.after settings calls).asking ls).names)
      ((Leaf.named index2).text ((before.after settings calls).asking ls).names) a start stop).code m =
      some (v, [.number (start.position base n i), .number (stop.position base n j + 1)]) := by
  have hkept : ∀ {key}, .named key ∈ ls →
      (Leaf.named key).text q.names = (Leaf.named key).text ((before.after settings calls).asking ls).names := by
    intro key hkey
    have htext := text_serve settings hsound hclean hkey (start.provision stop)
    rwa [hserve] at htext
  have hscene : Sliceable m a start stop ((Leaf.named index1).text ((before.after settings calls).asking ls).names)
      ((Leaf.named index2).text ((before.after settings calls).asking ls).names) v n i j :=
    { h with
      start := fun hcounted => hkept (hstart1 hcounted) ▸ h.start hcounted
      stop := fun hcounted => hkept (hstop2 hcounted) ▸ h.stop hcounted }
  obtain ⟨hname, hcode⟩ := Pass.code_of_supplied hstart hcalls (start.mem_catalogue stop) hserve
    (Pass.failure?_eq_none.1 hdone).2
  rw [Spot.helperKey, hcode]
  exact through?_code base hwords hname (fun hcounted => isLegal_text_asking hsound hclean (hstart1 hcounted))
    (fun hcounted => isLegal_text_asking hsound hclean (hstop2 hcounted)) hindent hscene

/-- In a pass of standard emitters, a slice that is taken directly and one that is taken by the helper are refused
for the same options, and with the same field. Each is refused for no other reason than that, or that no name is
left for a variable. Where both are emitted and names were left, the one calls `slice` with the start and the end that
the other computes, on the same sequence and for all lengths and indexes. -/
theorem slices_agree {g : Generator} {ws : Workspace} {before : Pass} (hstart : g.start ws = .ok before)
    (hindent : ∀ c ∈ g.indent.toList, Text.isCodeBlank c = true) {calls : List Call} (hcalls : ∀ c ∈ calls, c.Stocked)
    (hclean : (before.after (g.settings ws) calls).failure? = none) {b : Block} {index1 index2 : RawText}
    (hindex1 : b.HoldsIndex "WHERE1" "AT1" index1) (hindex2 : b.HoldsIndex "WHERE2" "AT2" index2)
    {a : Expr} (ha : a.isUse = true) (hwords : ∀ x ∈ a.words, Identifier.isLegal x = true) :
    let settings := g.settings ws
    let p := before.after settings calls
    let direct := directSlice (b.site standard) a.code
    let helper := helperSlice (b.site standard) a.code
    (∀ field, (∃ q, helper.run settings p = (.error (b.refusal field), q)) ↔ b.slicePlaces = .error field) ∧
    ((p.asking [.named index1]).names.failure = none → ∀ field,
      (∃ q, direct.run settings p = (.error (b.refusal field), q)) ↔
        ∃ q, helper.run settings p = (.error (b.refusal field), q)) ∧
    ∀ start stop, b.slicePlaces = .ok (start, stop) →
      Ends settings p direct
        (fun code q => q = p.asking (start.leaves index1 ++ stop.leaves index2) ∧ Ends settings p helper
          (fun call q' =>
            q' = ((p.asking (b.indexLeaves "AT1" index1 ++ b.indexLeaves "AT2" index2)).serve settings
              (start.provision stop)).2 ∧
            (q'.failure? = none → ∀ ⦃m m' v n i j⦄,
              Sliceable m a start stop ((Leaf.named index1).text q.names) ((Leaf.named index2).text q.names) v n i j →
              Sliceable m' a start stop ((Leaf.named index1).text q'.names) ((Leaf.named index2).text q'.names) v n i j →
              directly? code m = some (v, [.number (start.position (base settings b.head) n i),
                .number (stop.position (base settings b.head) n j + 1)]) ∧
              through? (q'.codeAt (start.helperKey stop)) call m' = directly? code m))
          (p.Exhausts (b.indexLeaves "AT1" index1 ++ b.indexLeaves "AT2" index2)))
        (p.Exhausts (start.leaves index1 ++ stop.leaves index2)) := by
  intro settings p direct helper
  have hpool : Pass.Pooled settings before calls (before.trace settings calls) p :=
    Pass.pooled_after (Generator.pooled_start hstart) (Pass.apart_of_stocked hcalls) (Pass.failure?_eq_none.1 hclean).2
  have hdirect : ∀ {start stop}, b.slicePlaces = .ok (start, stop) → Ends settings p direct _ _ :=
    fun hplaces => (gives_directSlice ha hindex1 hindex2 hplaces).ends p hpool.sound hclean
  have hhelper : ∀ {start stop}, b.slicePlaces = .ok (start, stop) → Ends settings p helper _ _ :=
    fun hplaces => ends_helperSlice hindex1 hindex2 hplaces hpool.sound hclean
  have hrefuses : ∀ field, (∃ q, helper.run settings p = (.error (b.refusal field), q)) ↔ b.slicePlaces = .error field := by
    refine refuses_iff (fun field h => ?_) fun start stop h => ⟨_, _, hhelper h⟩
    exact ⟨p, (congrArg (·.run settings p) (helperSlice_refused h a.code)).trans (run_unhandled b field p)⟩
  refine ⟨hrefuses, fun hnames field => ?_, fun start stop hplaces => ?_⟩
  · rw [hrefuses]
    refine refuses_iff (fun field h => ?_) (fun start stop h => ⟨_, _, hdirect h⟩) field
    exact run_directSlice_refused ha hindex1 hpool.sound hclean hnames h
  · refine (hdirect hplaces).mono ?_ fun _ hf => hf
    rintro code q ⟨rfl, hclean', rfl⟩
    obtain ⟨hplace1, hplace2⟩ := slicePlaces_eq_ok.1 hplaces
    have hmem1 := hindex1.mem_leaves (sliceStart?_eq_some.1 hplace1).1
    have hmem2 := hindex2.mem_leaves (sliceEnd?_eq_some.1 hplace2).1
    refine ⟨rfl, (hhelper hplaces).mono ?_ fun _ hf => hf⟩
    rintro call q' ⟨hclean'', name, hserve, rfl⟩
    refine ⟨(congrArg Prod.snd hserve).symm, fun hdone m m' v n i j hm hm' => ?_⟩
    have hdirectly := directly?_code (base settings b.head) hwords
      (fun hcounted => isLegal_text_asking hpool.sound hclean' (by simp [Spot.leaves, hcounted]))
      (fun hcounted => isLegal_text_asking hpool.sound hclean' (by simp [Spot.leaves, hcounted])) hm
    have hthrough := through?_of_served (Generator.pooled_start hstart) hcalls hpool.sound hclean''
      (fun hcounted => List.mem_append_left _ (hmem1 hcounted)) (fun hcounted => List.mem_append_right _ (hmem2 hcounted))
      hserve hdone hindent hwords (base settings b.head) hm'
    exact ⟨hdirectly, hthrough.trans hdirectly.symm⟩

/-- A pass without helpers that has a name for a variable, and then one for a helper. -/
theorem serve_behind_name (settings : PassSettings) (hsound : p.names.Sound) (hhelpers : p.helpers = [])
    (hclean : p.failure = none) {key desired : RawText} (body : List RawText)
    (hname : (p.names.get key .variable).2.failure = none)
    (hhelper : ((p.names.get key .variable).2.distinct desired .procedure).2.failure = none) :
    let p' := p.asking [.named key]
    let q := (p'.serve settings (.provide desired body)).2
    p'.names.failure = none ∧ (Leaf.named key).text p'.names = (p.names.get key .variable).1 ∧ q.failure? = none ∧
      (Leaf.named key).text q.names = (p.names.get key .variable).1 := by
  intro p' q
  have hclean' : p'.failure? = none := Pass.failure?_eq_none.2 ⟨hclean, hname⟩
  have hdone : q.failure? = none := by
    have hserve : q = _ := congrArg Prod.snd (Pass.serve_provide p' desired body)
    rw [hserve, show p'.helpers = [] from hhelpers]
    exact Pass.failure?_eq_none.2 ⟨hclean, hhelper⟩
  have htext : (Leaf.named key).text p'.names = (p.names.get key .variable).1 := (Leaf.known_serve hsound hname).2
  have hkept : (Leaf.named key).text q.names = (Leaf.named key).text p'.names :=
    text_serve settings hsound hclean' (List.mem_singleton_self _) _
  exact ⟨hname, htext, hdone, hkept.trans htext⟩

/-- The part of a list from place `x0` from the end. -/
def lastItems : Block :=
  ⟨{ kind := "lists_getSublist",
     fields := [⟨"WHERE1", .ofString "FROM_END", false⟩, ⟨"WHERE2", .ofString "LAST", false⟩] },
    [⟨"AT1", .value, some (use "x0")⟩], none⟩

theorem slicePlaces_lastItems : lastItems.slicePlaces = .ok (.fromEnd, .last) := by
  refine slicePlaces_eq_ok.2 ⟨sliceStart?_eq_some.2 ⟨?_, by decide⟩, sliceEnd?_eq_some.2 ⟨?_, by decide⟩⟩
  · simp [lastItems, Head.field, Head.field?, Head.written?, Spot.option]
  · simp [lastItems, Head.field, Head.field?, Head.written?, Spot.option]

theorem holdsIndex_lastItems : lastItems.HoldsIndex "WHERE1" "AT1" (.ofString "x0") ∧
    lastItems.HoldsIndex "WHERE2" "AT2" (.ofString "x0") := by
  refine ⟨.inl (holdsVariable_use rfl), .inr ⟨?_, rfl⟩⟩
  rw [(sliceEnd?_eq_some.1 (slicePlaces_eq_ok.1 slicePlaces_lastItems).2).1]
  rfl

/-- The index gets its name, and one is left for the helper: if not its own, then one with a number behind it. -/
theorem names_lastItems {n : Names} (hids : n.idNames = []) (hknown : n.known = {}) (hclean : n.failure = none)
    (hfree : n.free? "x0" = some "x0") (hreserved : "subsequenceFromEndLast10" ∉ n.reserved)
    (hused : "subsequenceFromEndLast10" ∉ n.used) :
    (n.get "x0" .variable).1 = "x0" ∧ (n.get "x0" .variable).2.failure = none ∧
      ((n.get "x0" .variable).2.distinct (Spot.helperKey .fromEnd .last) .procedure).2.failure = none := by
  have hx : Identifier.ofText (n.resolve "x0" .variable) = "x0" := by
    rw [Names.resolve, hids, if_pos rfl, List.lookup_nil, Option.map_none, Option.getD_none, Identifier.ofText,
      RawText.bytes_ofString, Text.bytesOf_eq]
    decide
  have hcandidate : "subsequenceFromEndLast10" ∈ Names.candidates (Identifier.ofText (Spot.helperKey .fromEnd .last)) := by
    have hkey : Helpers.subsequenceName (Spot.option .fromEnd) (Spot.option .last) = "subsequenceFromEndLast" := by decide
    rw [Spot.helperKey, hkey, Identifier.ofText, RawText.bytes_ofString, Text.bytesOf_eq]
    refine List.mem_cons_of_mem _ (List.mem_map.2 ⟨10, ?_, by decide⟩)
    rw [List.mem_range'_1, Names.maxSuffix]
    omega
  have hfound : n.free? (Identifier.ofText (n.resolve "x0" .variable)) = some "x0" := by rwa [hx]
  obtain ⟨hname, hfailure⟩ := Names.get_of_free hknown hfound
  have htaken : (n.get "x0" .variable).2.taken "subsequenceFromEndLast10" = false := by
    rcases Names.get_cases n "x0" .variable with ⟨name, -, hget⟩ | ⟨name, -, hother, hget⟩ | ⟨-, -, hget⟩
    · simp [hget, Names.taken, Names.isReserved, hreserved, hused]
    · obtain rfl : name = "x0" := Option.some.inj (hother.symm.trans hfound)
      simp [hget, Names.taken, Names.isReserved, hreserved, hused]
    · simp [hget, Names.taken, Names.isReserved, hreserved, hused]
  exact ⟨hname, hfailure.trans hclean, (Names.failure_distinct_of_free hcandidate htaken).trans (hfailure.trans hclean)⟩

/-- Three items in `list`, and the place two in `x0`. -/
def row : Memory :=
  { values := fun name => if name = "list" then some (.list 0) else if name = "x0" then some (.number 2) else none
    lists := [[.number 10, .number 20, .number 30]] }

theorem sliceable_row : Sliceable row (.name "list") .fromEnd .last "x0" "x0" (.list 0) 3 2 2 :=
  ⟨rfl, rfl, fun _ => rfl, fun _ => rfl⟩

theorem lastItems_slices_agree :
    ∃ code q call q',
      (directSlice (lastItems.site standard) (Expr.name "list").code).run { oneBased := true }
        { names := Generator.startNames {} { oneBased := true } } = (.ok code, q) ∧
      (helperSlice (lastItems.site standard) (Expr.name "list").code).run { oneBased := true }
        { names := Generator.startNames {} { oneBased := true } } = (.ok call, q') ∧
      directly? code row = some (.list 0, [.number 1, .number 3]) ∧
      through? (q'.codeAt (Spot.helperKey .fromEnd .last)) call row = some (.list 0, [.number 1, .number 3]) := by
  have hstart : Generator.start {} { oneBased := true } = .ok { names := Generator.startNames {} { oneBased := true } } :=
    Generator.start_of_no_keys rfl
  have hclean : (Generator.startNames {} { oneBased := true }).failure = none := Generator.failure_startNames _ _
  obtain ⟨hname, hleft, hhelper⟩ := names_lastItems (n := Generator.startNames {} { oneBased := true }) rfl
    (Generator.known_startNames _ _) hclean (Names.free?_startNames (by decide) rfl rfl)
    (Names.not_mem_reserved_startNames (by decide) rfl rfl) (Names.not_mem_used_startNames _ _ _)
  have hsound : (Generator.startNames {} { oneBased := true }).Sound := Generator.sound_startNames _ _
  have hleaves : lastItems.indexLeaves "AT1" "x0" ++ lastItems.indexLeaves "AT2" "x0" = [.named "x0"] := by
    have hvariable : lastItems.HoldsVariable "AT1" (.ofString "x0") := holdsVariable_use rfl
    have hempty : lastItems.plugged? "AT2" = none := rfl
    rw [hvariable.indexLeaves_eq, indexLeaves, hempty]
    rfl
  -- nothing else of the registry and of the variable matters
  generalize Generator.startNames {} { oneBased := true } = n at *
  obtain ⟨-, -, hagree⟩ := slices_agree hstart (List.all_eq_true.1 (by decide)) (List.forall_mem_nil _) (Pass.failure?_eq_none.2 ⟨rfl, hclean⟩)
    holdsIndex_lastItems.1 holdsIndex_lastItems.2 (show (Expr.name "list").isUse = true from rfl) (isLegal_name (by decide))
  have hends := hagree .fromEnd .last slicePlaces_lastItems
  rw [hleaves] at hends
  obtain ⟨hasked, htext, hdone, hkept⟩ := serve_behind_name (p := { names := n }) { oneBased := true } hsound rfl rfl
    ((Helpers.subsequence (Spot.option .fromEnd) (Spot.option .last)).map .ofString) hleft hhelper
  obtain ⟨code, q, hrun, rfl, hinner⟩ := hends.run_ok hasked
  obtain ⟨call, q', hrun', rfl, hslices⟩ := hinner.run_ok hasked
  obtain ⟨hdirect, hthrough⟩ := hslices hdone ((htext.trans hname).symm ▸ sliceable_row)
    ((hkept.trans hname).symm ▸ sliceable_row)
  exact ⟨code, _, call, _, hrun, hrun', hdirect, hthrough.trans hdirect⟩

end Block
end Blockwright
