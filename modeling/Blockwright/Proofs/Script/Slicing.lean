import Blockwright.Proofs.Emit.Calls
import Blockwright.Proofs.Script.Slices
/-!
# Blocks that slice

The places that a block slices between, or the field whose option is refused, and what is then
emitted: for a direct slice its tree as it is written, for one by the helper the call of that.
-/

namespace Blockwright

open Operators Emit Script

variable {settings : PassSettings}

/-! ## Places of a slice -/

namespace Spot

/-- The place that an option means. -/
def ofOption? (option : String) : Option Spot := [first, last, fromStart, fromEnd].find? (·.option = option)

theorem ofOption?_eq_some {option : String} {spot : Spot} : ofOption? option = some spot ↔ option = spot.option := by
  constructor
  · intro h
    have hoption := List.find?_some h
    exact (of_decide_eq_true hoption).symm
  · rintro rfl
    cases spot <;> rfl

/-- The options of a helper's places but one are the options that have a name and are not that of the one. -/
theorem filter_ofOption?_eq_none {option : String} (spot : Spot) : (ofOption? option).filter (· ≠ spot) = none ↔
    ((Helpers.whereNames.lookup option).isNone || option = spot.option) = true := by
  cases hoption : ofOption? option with
  | some other =>
    rw [ofOption?_eq_some] at hoption
    subst hoption
    cases other <;> cases spot <;> decide
  | none =>
    have hno : ∀ other : Spot, option ≠ other.option := by
      rintro other rfl
      rw [ofOption?_eq_some.2 rfl] at hoption
      cases hoption
    have hnames : ∀ e ∈ Helpers.whereNames, ∃ other : Spot, e.1 = other.option := by
      simp only [Helpers.whereNames, List.forall_mem_cons]
      exact ⟨⟨.first, rfl⟩, ⟨.last, rfl⟩, ⟨.fromStart, rfl⟩, ⟨.fromEnd, rfl⟩, by simp⟩
    have hlookup : Helpers.whereNames.lookup option = none := by
      refine List.lookup_eq_none_iff.2 fun e he => ?_
      obtain ⟨other, hother⟩ := hnames e he
      exact hother ▸ bne_iff_ne.2 (hno other)
    simp [hlookup]

/-- The key of the helper for a pair of places. -/
def helperKey (start stop : Spot) : RawText := .ofString (Helpers.subsequenceName start.option stop.option)

/-- The call that provides this helper. -/
def provision (start stop : Spot) : Call :=
  .provide (start.helperKey stop) ((Helpers.subsequence start.option stop.option).map .ofString)

end Spot

namespace Block

/-- Where a slice starts. None starts at the last item. -/
def sliceStart? (b : Block) : Option Spot := (Spot.ofOption? (b.head.field "WHERE1")).filter (· ≠ .last)

/-- Where a slice ends. None ends at the first item. -/
def sliceEnd? (b : Block) : Option Spot := (Spot.ofOption? (b.head.field "WHERE2")).filter (· ≠ .first)

/-- The places that a block slices between, or the field whose option is refused. -/
def slicePlaces (b : Block) : Except String (Spot × Spot) :=
  match b.sliceStart?, b.sliceEnd? with
  | none, _ => .error "WHERE1"
  | some _, none => .error "WHERE2"
  | some start, some stop => .ok (start, stop)

/-- The failure when the option of a field is refused. -/
def refusal (b : Block) (field : String) : Failure := { cause := .unhandledOption b.head.kind field (b.head.written field) }

variable {b : Block} {start stop spot : Spot}

theorem sliceStart?_eq_some : b.sliceStart? = some spot ↔ b.head.field "WHERE1" = spot.option ∧ spot ≠ .last := by
  simp [sliceStart?, Option.filter_eq_some_iff, Spot.ofOption?_eq_some]

theorem sliceEnd?_eq_some : b.sliceEnd? = some spot ↔ b.head.field "WHERE2" = spot.option ∧ spot ≠ .first := by
  simp [sliceEnd?, Option.filter_eq_some_iff, Spot.ofOption?_eq_some]

theorem slicePlaces_eq_ok : b.slicePlaces = .ok (start, stop) ↔ b.sliceStart? = some start ∧ b.sliceEnd? = some stop := by
  unfold slicePlaces
  split <;> simp_all

theorem slicePlaces_eq_error {field : String} (h : b.slicePlaces = .error field) :
    field = "WHERE1" ∧ b.sliceStart? = none ∨
      field = "WHERE2" ∧ (∃ start, b.sliceStart? = some start) ∧ b.sliceEnd? = none := by
  unfold slicePlaces at h
  split at h <;> simp_all

/-! ## Indexes of a slice -/

/-- A variable stands in a socket for an index, or nothing when the place takes none. -/
def HoldsIndex (b : Block) (field socket : String) (key : RawText) : Prop :=
  b.HoldsVariable socket key ∨ Helpers.takesIndex (b.head.field field) = false ∧ b.plugged? socket = none

/-- The variable in a socket, if one stands there. -/
def indexLeaves (b : Block) (socket : String) (key : RawText) : List Leaf :=
  if (b.plugged? socket).isSome then [.named key] else []

/-- An empty socket holds the first position. -/
theorem gives_index_empty (settings : PassSettings) {socket : String} (h : b.plugged? socket = none) :
    ∃ text, Gives settings ((b.site standard).index socket 0 false Order.none) [] fun _ => text := by
  have hfallback : ∀ outer fallback, (b.site standard).valueOr socket outer fallback = pure fallback := by
    intro outer fallback
    rw [Site.valueOr, Site.value, plug?_site_eq, h]
    rfl
  have hread : ∀ text, text = "0" ∨ text = "1" → Text.isNumber text = true ∧ ∃ n, Double.read (Text.trim text) = .ok n := by
    intro text htext
    have hok : (Double.read (Text.trim text)).isOk = true := by rcases htext with rfl | rfl <;> decide +kernel
    refine ⟨by rcases htext with rfl | rfl <;> decide, ?_⟩
    cases hn : Double.read (Text.trim text) with
    | ok n => exact ⟨n, rfl⟩
    | error e =>
      rw [hn] at hok
      cases hok
  obtain ⟨hnumber, n, hn⟩ := hread (if b.head.owned && settings.oneBased then "1" else "0") (by split <;> simp)
  refine ⟨shiftLiteral n (if b.head.owned && settings.oneBased then Whole.wrap (0 - 1) else 0) false, fun _ _ _ => rfl,
    fun p _ hclean => ?_⟩
  unfold Site.index Site.oneBased
  simp only [hfallback, head_site, bind_assoc, pure_bind, ends_bind, ends_read]
  rw [if_pos hnumber, hn]
  exact (ends_pure _).2 ⟨rfl, hclean, rfl⟩

theorem HoldsVariable.indexLeaves_eq {socket : String} {key : RawText} (h : b.HoldsVariable socket key) :
    b.indexLeaves socket key = [.named key] := by
  obtain ⟨c, hplug, -⟩ := h
  rw [indexLeaves, hplug]
  rfl

/-- An index that counts from zero, whatever stands in its socket, as far as the place takes one. -/
theorem HoldsIndex.gives (settings : PassSettings) {field socket : String} {key : RawText}
    (h : b.HoldsIndex field socket key) : ∃ text : Names → String,
      Gives settings ((b.site standard).index socket 0 false Order.none) (b.indexLeaves socket key) text ∧
      (Helpers.takesIndex (b.head.field field) = true →
        text = fun n => ((Expr.name ((Leaf.named key).text n)).moved (0 - base settings b.head)).code) := by
  rcases h with h | ⟨hfree, hempty⟩
  · rw [h.indexLeaves_eq]
    exact ⟨_, h.gives_moved (by decide), fun _ => rfl⟩
  · have hleaves : b.indexLeaves socket key = [] := by
      rw [indexLeaves, hempty]
      rfl
    rw [hleaves]
    obtain ⟨text, hgives⟩ := gives_index_empty settings hempty
    exact ⟨_, hgives, fun htakes => absurd (hfree.symm.trans htakes) (by decide)⟩

theorem HoldsIndex.holdsVariable {field socket : String} {key : RawText} (h : b.HoldsIndex field socket key)
    (htakes : Helpers.takesIndex (b.head.field field) = true) : b.HoldsVariable socket key :=
  h.resolve_right fun hno => absurd (hno.1.symm.trans htakes) (by decide)

/-! ## Direct slices -/

section
variable {a : Expr} (ha : a.isUse = true) {index1 index2 : RawText} (hindex1 : b.HoldsIndex "WHERE1" "AT1" index1)
  (hindex2 : b.HoldsIndex "WHERE2" "AT2" index2)

include ha in
theorem code_length_minus (k : Expr) :
    (Expr.difference (.member a "length") k).code = a.code ++ ".length - " ++ k.groupedCode := by
  rw [Expr.code_difference, code_member_length ha, String.append_assoc, String.append_assoc, String.append_assoc]
  rfl

include ha hindex1 in
theorem gives_sliceStart (hstart : b.sliceStart? = some start) :
    Gives settings (sliceStart (b.site standard) a.code) (start.leaves index1) fun n =>
      (lengthIndex (base settings b.head) ((Leaf.named index1).text n) a start).code := by
  obtain ⟨hoption, hne⟩ := sliceStart?_eq_some.1 hstart
  have hvariable : start.isCounted = true → b.HoldsVariable "AT1" index1 :=
    fun hcounted => hindex1.holdsVariable (by rw [hoption, takesIndex_option, hcounted])
  unfold sliceStart
  rw [head_site, hoption]
  cases start with
  | first =>
    simp only [lengthIndex, code_zero]
    exact .pure "0"
  | last => exact absurd rfl hne
  | fromStart => exact (hvariable rfl).gives_moved (by decide)
  | fromEnd =>
    simp only [lengthIndex, code_length_minus ha]
    exact ((hvariable rfl).gives_grouped (by decide)).through (a.code ++ ".length - " ++ ·) fun _ _ _ => rfl

include ha hindex2 in
theorem gives_sliceEnd (hstop : b.sliceEnd? = some stop) :
    Gives settings (sliceEnd (b.site standard) a.code) (stop.leaves index2) fun n =>
      (stopIndex (base settings b.head) ((Leaf.named index2).text n) a stop).code := by
  obtain ⟨hoption, hne⟩ := sliceEnd?_eq_some.1 hstop
  have hvariable : stop.isCounted = true → b.HoldsVariable "AT2" index2 :=
    fun hcounted => hindex2.holdsVariable (by rw [hoption, takesIndex_option, hcounted])
  unfold sliceEnd
  rw [head_site, hoption]
  cases stop with
  | first => exact absurd rfl hne
  | last =>
    simp only [stopIndex, code_member_length ha]
    exact .pure _
  | fromStart => exact (hvariable rfl).gives_moved (by decide)
  | fromEnd =>
    simp only [stopIndex, code_length_minus ha]
    exact ((hvariable rfl).gives_grouped (by decide)).through (a.code ++ ".length - " ++ ·) fun _ _ _ => rfl

include ha hindex1 hindex2 in
/-- A direct slice is emitted as its tree. -/
theorem gives_directSlice (hplaces : b.slicePlaces = .ok (start, stop)) :
    Gives settings (directSlice (b.site standard) a.code) (start.leaves index1 ++ stop.leaves index2) fun n =>
      (directCall (base settings b.head) ((Leaf.named index1).text n) ((Leaf.named index2).text n) a start stop).code := by
  obtain ⟨hstart, hstop⟩ := slicePlaces_eq_ok.1 hplaces
  simp only [code_directCall _ _ _ ha]
  exact (gives_sliceStart ha hindex1 hstart).through₂ (gives_sliceEnd ha hindex2 hstop)
    (fun low high => a.code ++ ".slice(" ++ low ++ ", " ++ high ++ ")") fun _ _ _ => rfl

end

/-! ## Refusals -/

theorem ne_option_of_sliceStart? (h : b.sliceStart? = none) (spot : Spot) (hne : spot ≠ .last) :
    b.head.field "WHERE1" ≠ spot.option := by
  intro hoption
  rw [sliceStart?_eq_some.2 ⟨hoption, hne⟩] at h
  cases h

theorem ne_option_of_sliceEnd? (h : b.sliceEnd? = none) (spot : Spot) (hne : spot ≠ .first) :
    b.head.field "WHERE2" ≠ spot.option := by
  intro hoption
  rw [sliceEnd?_eq_some.2 ⟨hoption, hne⟩] at h
  cases h

theorem sliceStart_refused (h : b.sliceStart? = none) (code : String) :
    sliceStart (b.site standard) code = (b.site standard).unhandled "WHERE1" := by
  unfold sliceStart
  rw [head_site]
  split
  · exact absurd ‹_› (ne_option_of_sliceStart? h .fromStart (by decide))
  · exact absurd ‹_› (ne_option_of_sliceStart? h .fromEnd (by decide))
  · exact absurd ‹_› (ne_option_of_sliceStart? h .first (by decide))
  · rfl

theorem sliceEnd_refused (h : b.sliceEnd? = none) (code : String) :
    sliceEnd (b.site standard) code = (b.site standard).unhandled "WHERE2" := by
  unfold sliceEnd
  rw [head_site]
  split
  · exact absurd ‹_› (ne_option_of_sliceEnd? h .fromStart (by decide))
  · exact absurd ‹_› (ne_option_of_sliceEnd? h .fromEnd (by decide))
  · exact absurd ‹_› (ne_option_of_sliceEnd? h .last (by decide))
  · rfl

/-- The helper refuses the options that a direct slice refuses. -/
theorem helperSlice_refused {field : String} (h : b.slicePlaces = .error field) (code : String) :
    helperSlice (b.site standard) code = (b.site standard).unhandled field := by
  rcases slicePlaces_eq_error h with ⟨rfl, hstart⟩ | ⟨rfl, ⟨start, hstart⟩, hstop⟩
  · exact if_pos ((Spot.filter_ofOption?_eq_none .last).1 hstart)
  · have haccepted : b.sliceStart? ≠ none := by simp [hstart]
    refine (if_neg fun hno => haccepted ?_).trans (if_pos ((Spot.filter_ofOption?_eq_none .first).1 hstop))
    exact (Spot.filter_ofOption?_eq_none .last).2 hno

/-! ## Slices by the helper -/

theorem helperSlice_accepted (hplaces : b.slicePlaces = .ok (start, stop)) (code : String) :
    helperSlice (b.site standard) code = do
      let i ← (b.site standard).index "AT1" 0 false Order.none
      let j ← (b.site standard).index "AT2" 0 false Order.none
      let fn ← provide (Helpers.subsequenceName start.option stop.option) (Helpers.subsequence start.option stop.option)
      return fn ++ "(" ++ code ++ (if start.isCounted then ", " ++ i else "")
        ++ (if stop.isCounted then ", " ++ j else "") ++ ")" := by
  obtain ⟨hstart, hstop⟩ := slicePlaces_eq_ok.1 hplaces
  have haccepted1 : b.sliceStart? ≠ none := by simp [hstart]
  have haccepted2 : b.sliceEnd? ≠ none := by simp [hstop]
  refine (if_neg fun hno => haccepted1 ((Spot.filter_ofOption?_eq_none .last).2 hno)).trans
    ((if_neg fun hno => haccepted2 ((Spot.filter_ofOption?_eq_none .first).2 hno)).trans ?_)
  rw [head_site, (sliceStart?_eq_some.1 hstart).1, (sliceEnd?_eq_some.1 hstop).1, takesIndex_option, takesIndex_option]

/-- A slice by the helper asks for both indexes, then for the helper, and is emitted as its tree. -/
theorem ends_helperSlice {a : Expr} {index1 index2 : RawText} (hindex1 : b.HoldsIndex "WHERE1" "AT1" index1)
    (hindex2 : b.HoldsIndex "WHERE2" "AT2" index2) (hplaces : b.slicePlaces = .ok (start, stop)) {p : Pass}
    (hsound : p.names.Sound) (hclean : p.failure? = none) :
    let leaves := b.indexLeaves "AT1" index1 ++ b.indexLeaves "AT2" index2
    Ends settings p (helperSlice (b.site standard) a.code)
      (fun call q => (p.asking leaves).failure? = none ∧ ∃ name,
        (p.asking leaves).serve settings (start.provision stop) = (name, q) ∧
        call = (helperCall (base settings b.head) name ((Leaf.named index1).text (p.asking leaves).names)
          ((Leaf.named index2).text (p.asking leaves).names) a start stop).code)
      (p.Exhausts leaves) := by
  intro leaves
  obtain ⟨hstart, hstop⟩ := slicePlaces_eq_ok.1 hplaces
  obtain ⟨text1, hgives1, htext1⟩ := hindex1.gives settings
  obtain ⟨text2, hgives2, htext2⟩ := hindex2.gives settings
  rw [(sliceStart?_eq_some.1 hstart).1, takesIndex_option] at htext1
  rw [(sliceEnd?_eq_some.1 hstop).1, takesIndex_option] at htext2
  have hargument : ∀ {spot : Spot} {text text' : Names → String} (n : Names), (spot.isCounted = true → text = text') →
      (if spot.isCounted then ", " ++ text n else "") = if spot.isCounted then ", " ++ text' n else "" := by
    intro spot text text' n htext
    split
    · rw [htext ‹_›]
    · rfl
  have hsplit : ∀ k : String → String → Emit String, (do
      let i ← (b.site standard).index "AT1" 0 false Order.none
      let j ← (b.site standard).index "AT2" 0 false Order.none
      k i j) = (do
        let r ← (do
          let i ← (b.site standard).index "AT1" 0 false Order.none
          let j ← (b.site standard).index "AT2" 0 false Order.none
          return (i, j))
        k r.1 r.2) := by
    intro k
    simp only [bind_assoc, pure_bind]
  rw [helperSlice_accepted hplaces, hsplit, ends_bind]
  refine ((hgives1.pair hgives2).ends p hsound hclean).mono ?_ fun _ hf => hf
  rintro _ _ ⟨rfl, hclean', rfl⟩
  rw [ends_bind, ← Call.perform_provide]
  refine Pass.ends_perform ?_
  refine (ends_pure _).2 ⟨hclean', _, rfl, ?_⟩
  rw [code_helperCall, hargument _ htext1, hargument _ htext2]
  rfl

end Block
end Blockwright
