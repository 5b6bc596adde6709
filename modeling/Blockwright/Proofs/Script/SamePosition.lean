import Blockwright.Proofs.Script.Accesses
/-!
# One position for all blocks

Every block that looks in a sequence does so at the position that its place and its index stand
for, in both ways of counting. So what one block sets at a place another one reads there.
-/

namespace Blockwright

open Operators Emit Script

variable {settings : PassSettings}

/-! ## What code does at a position -/

namespace Script

/-- What an access finds in its variables: a list, the index if the place takes one, and the value to set. -/
structure Scene (m : Memory) (access : Access) (spot : Spot) (list index value : String) (place : Nat)
    (items : List Value) (i : Int) (v : Value) : Prop where
  list : m.values list = some (.list place)
  items : m.lists[place]? = some items
  index : spot.isCounted = true → m.values index = some (.number i)
  value : access = .set → m.values value = some v

end Script

namespace Result

/-- Run where the index counts an item of the list from `base`, the code does the access to the item at the
position that the place and the index stand for. Variables and other lists stay as they are. -/
def AccessesAt (r : Result) (base : Int) (access : Access) (spot : Spot) (list index value : String) : Prop :=
  ∀ ⦃m place items i v⦄, Scene m access spot list index value place items i v → 0 ≤ i - base → i - base < items.length →
    ∃ (k : Nat) (item : Value) (m' : Memory), (k : Int) = spot.position base items.length i ∧ items[k]? = some item ∧
      r.perform m = some (access.answer item, m') ∧ m'.values = m.values ∧
      m.lists.set place (access.after items k v) <+: m'.lists

/-- Run where the index counts a letter of the text from `base`, the code has the letter at the position that
the place and the index stand for as its value. -/
def HasLetterAt (r : Result) (base : Int) (spot : Spot) (text index : String) : Prop :=
  ∀ ⦃m : Memory⦄ ⦃units : List UInt16⦄ ⦃i : Int⦄, m.values text = some (.text units) →
    (spot.isCounted = true → m.values index = some (.number i)) → 0 ≤ i - base → i - base < units.length →
    ∃ (k : Nat) (u : UInt16), (k : Int) = spot.position base units.length i ∧ units[k]? = some u ∧
      r.perform m = some (.text [u], m)

end Result

namespace Result

theorem accessesAt_of_isWritten {r : Result} {base : Int} {access : Access} {spot : Spot} {list index value : String}
    (h : (accessed base list index value access spot).IsWritten r) (hlist : Identifier.isLegal list = true)
    (hindex : spot.isCounted = true → Identifier.isLegal index = true)
    (hvalue : access = .set → Identifier.isLegal value = true) : r.AccessesAt base access spot list index value := by
  intro m place items i v hscene hlow hhigh
  obtain ⟨hpos, hk⟩ := spot.position_bounds hlow hhigh
  obtain ⟨m', hrun, hvalues, hlists⟩ := run_accessed hscene.list hscene.items hscene.index hlow hhigh
    (List.getElem?_eq_getElem hk) hscene.value
  have hread : r.perform m = (accessed base list index value access spot).run m := by
    rw [perform, Fragment.ofResult?_of_isWritten (isLegal_accessed hlist hindex hvalue) h, Option.bind_some]
  exact ⟨_, _, m', Int.toNat_of_nonneg hpos, List.getElem?_eq_getElem hk, hread.trans hrun, hvalues, hlists⟩

theorem hasLetterAt_of_isWritten {r : Result} {base : Int} {spot : Spot} {text index : String}
    (h : (Fragment.value (lettered base index text spot)).IsWritten r) (htext : Identifier.isLegal text = true)
    (hindex : spot.isCounted = true → Identifier.isLegal index = true) : r.HasLetterAt base spot text index := by
  intro m units i hunits hi hlow hhigh
  obtain ⟨hpos, hk⟩ := spot.position_bounds hlow hhigh
  have hwords : ∀ x ∈ (Fragment.value (lettered base index text spot)).words, Identifier.isLegal x = true :=
    isLegal_lettered htext hindex
  have hread : r.perform m = (lettered base index text spot).eval m := by
    rw [perform, Fragment.ofResult?_of_isWritten hwords h, Option.bind_some]
    rfl
  exact ⟨_, _, Int.toNat_of_nonneg hpos, List.getElem?_eq_getElem hk,
    hread.trans (eval_lettered hunits hi hlow hhigh (List.getElem?_eq_getElem hk))⟩

end Result

namespace Block

variable {p : Pass} {b : Block} {access : Access} {spot : Spot} {list index value text : RawText}

/-- The variables of a block have names behind it. -/
theorem isLegal_leaves {n : Names} (hn : n.Sound) {ls : List Leaf} (hknown : ∀ l ∈ ls, l.Known n) {key : RawText}
    (hkey : .named key ∈ ls) : Identifier.isLegal ((Leaf.named key).text n) = true :=
  (hknown _ hkey).isLegal_text hn

theorem Accesses.accessesAt (h : b.Accesses access spot list index value) : ∃ r : Names → Result,
    Gives settings (access.emitter (b.site standard)) (access.leaves list value ++ spot.leaves index) r ∧
    ∀ n : Names, n.Sound → (∀ l ∈ access.leaves list value ++ spot.leaves index, l.Known n) →
      (r n).AccessesAt (base settings b.head) access spot ((Leaf.named list).text n) ((Leaf.named index).text n)
        ((Leaf.named value).text n) := by
  obtain ⟨r, hgives, hwritten⟩ := h.emits
  refine ⟨r, hgives, fun n hn hknown => Result.accessesAt_of_isWritten (hwritten n) ?_ ?_ ?_⟩
  · exact isLegal_leaves hn hknown (by cases access <;> simp [Access.leaves])
  · exact fun hcounted => isLegal_leaves hn hknown (by simp [Spot.leaves, hcounted])
  · rintro rfl
    exact isLegal_leaves hn hknown (by simp [Access.leaves])

theorem AsksLetter.hasLetterAt (h : b.AsksLetter spot text index) : ∃ r : Names → Result,
    Gives settings (textCharAt (b.site standard)) ([Leaf.named text] ++ spot.leaves index) r ∧
    ∀ n : Names, n.Sound → (∀ l ∈ [Leaf.named text] ++ spot.leaves index, l.Known n) →
      (r n).HasLetterAt (base settings b.head) spot ((Leaf.named text).text n) ((Leaf.named index).text n) := by
  obtain ⟨r, hgives, hwritten⟩ := h.gives
  refine ⟨r, hgives, fun n hn hknown => Result.hasLetterAt_of_isWritten (hwritten n) ?_ ?_⟩
  · exact isLegal_leaves hn hknown (by simp)
  · exact fun hcounted => isLegal_leaves hn hknown (by simp [Spot.leaves, hcounted])

/-- What a block sets, a block reads that looks at the same place with the same index. -/
theorem read_set {r r' : Result} {base : Int} {access : Access} {list index value : String}
    (hr : r.AccessesAt base .set spot list index value) (hr' : r'.AccessesAt base access spot list index value)
    (hread : access = .get ∨ access = .take) {m : Memory} {place : Nat} {items : List Value} {i : Int} {v : Value}
    (hscene : Scene m .set spot list index value place items i v) (hlow : 0 ≤ i - base) (hhigh : i - base < items.length) :
    ∃ m' m'', r.perform m = some (.undefined, m') ∧ r'.perform m' = some (v, m'') := by
  obtain ⟨k, item, m', hk, hitem, hperform, hvalues, hlists⟩ := hr hscene hlow hhigh
  have hplace : place < m.lists.length := (List.getElem?_eq_some_iff.1 hscene.items).1
  have hset : m'.lists[place]? = some (items.set k v) := by
    obtain ⟨more, hmore⟩ := hlists
    rw [← hmore, List.getElem?_append_left (by simpa using hplace), List.getElem?_set_self hplace]
    rfl
  have hscene' : Scene m' access spot list index value place (items.set k v) i v :=
    ⟨hvalues ▸ hscene.list, hset, hvalues ▸ hscene.index, fun _ => hvalues ▸ hscene.value rfl⟩
  have hhigh' : i - base < (items.set k v).length := by rwa [List.length_set]
  obtain ⟨k', item', m'', hk', hitem', hperform', -, -⟩ := hr' hscene' hlow hhigh'
  have hsame : k' = k := by
    rw [List.length_set] at hk'
    exact Int.ofNat_inj.1 (hk'.trans hk.symm)
  have hvalue : item' = v := by
    rw [hsame, List.getElem?_set_self (List.getElem?_eq_some_iff.1 hitem).1] at hitem'
    exact (Option.some.inj hitem').symm
  refine ⟨m', m'', hperform, ?_⟩
  rw [hvalue] at hperform'
  rcases hread with rfl | rfl <;> exact hperform'

/-- In a pass without failures, every block on an item of a list and every block on a letter of a text works at
the position that its place and its index stand for: the index itself counted from zero, as many places in
front of the last one, the first one, or the last one. So a value that is set at a place is the value that is
then got or taken at the same place with the same index. Emitting such a block fails only when no name is left
for a variable. -/
theorem blocks_agree_on_position {words : List String} {rs : List Names.Request}
    (hnames : p.names = (Names.new words).after rs) (hclean : p.failure? = none) :
    (∀ {b : Block} {access spot list index value}, b.Accesses access spot list index value →
      standard.lookup b.head.kind = some access.emitter ∧
      Ends settings p (access.emitter (b.site standard))
        (fun r p' => p' = p.asking (access.leaves list value ++ spot.leaves index) ∧
          r.AccessesAt (base settings b.head) access spot ((Leaf.named list).text p'.names)
            ((Leaf.named index).text p'.names) ((Leaf.named value).text p'.names))
        (p.Exhausts (access.leaves list value ++ spot.leaves index))) ∧
    (∀ {b : Block} {spot text index}, b.AsksLetter spot text index →
      standard.lookup b.head.kind = some textCharAt ∧
      Ends settings p (textCharAt (b.site standard))
        (fun r p' => p' = p.asking ([.named text] ++ spot.leaves index) ∧
          r.HasLetterAt (base settings b.head) spot ((Leaf.named text).text p'.names) ((Leaf.named index).text p'.names))
        (p.Exhausts ([.named text] ++ spot.leaves index))) ∧
    (∀ {b b' : Block} {access spot list index value}, b.Accesses .set spot list index value →
      b'.Accesses access spot list index value → (access = .get ∨ access = .take) →
      base settings b.head = base settings b'.head →
      Ends settings p (do let r ← listsSetIndex (b.site standard); let r' ← access.emitter (b'.site standard); return (r, r'))
        (fun (r, r') p' =>
          p' = p.asking
            (Access.set.leaves list value ++ spot.leaves index ++ (access.leaves list value ++ spot.leaves index)) ∧
          ∀ ⦃m place items i v⦄,
            Scene m .set spot ((Leaf.named list).text p'.names) ((Leaf.named index).text p'.names)
              ((Leaf.named value).text p'.names) place items i v →
            0 ≤ i - base settings b.head → i - base settings b.head < items.length →
            ∃ m' m'', r.perform m = some (.undefined, m') ∧ r'.perform m' = some (v, m''))
        (p.Exhausts
          (Access.set.leaves list value ++ spot.leaves index ++ (access.leaves list value ++ spot.leaves index)))) := by
  have hsound : p.names.Sound := by
    rw [hnames]
    exact (Names.sound_new words).after rs
  have hknown : ∀ {ls : List Leaf}, (p.asking ls).failure? = none → ∀ l ∈ ls, l.Known (p.asking ls).names :=
    fun hclean' => known_requests hsound (Pass.failure?_eq_none.1 hclean').2
  refine ⟨fun h => ⟨h.kind ▸ Access.lookup_kind _, ?_⟩, fun h => ⟨h.kind ▸ rfl, ?_⟩, fun h h' hread hbase => ?_⟩
  · obtain ⟨r, hgives, hreaches⟩ := h.accessesAt
    refine (hgives.ends p hsound hclean).mono ?_ fun _ hf => hf
    rintro _ p' ⟨rfl, hclean', rfl⟩
    exact ⟨rfl, hreaches _ (hsound.after _) (hknown hclean')⟩
  · obtain ⟨r, hgives, hreaches⟩ := h.hasLetterAt
    refine (hgives.ends p hsound hclean).mono ?_ fun _ hf => hf
    rintro _ p' ⟨rfl, hclean', rfl⟩
    exact ⟨rfl, hreaches _ (hsound.after _) (hknown hclean')⟩
  · obtain ⟨r, hgives, hreaches⟩ := h.accessesAt
    obtain ⟨r', hgives', hreaches'⟩ := h'.accessesAt
    refine ((hgives.pair hgives').ends p hsound hclean).mono ?_ fun _ hf => hf
    rintro _ p' ⟨rfl, hclean', rfl⟩
    refine ⟨rfl, fun m place items i v hscene hlow hhigh => ?_⟩
    have hall := hknown hclean'
    have hset := hreaches _ (hsound.after _) fun l hl => hall l (List.mem_append_left _ hl)
    have hgot := hreaches' _ (hsound.after _) fun l hl => hall l (List.mem_append_right _ hl)
    exact read_set hset (hbase ▸ hgot) hread hscene hlow hhigh

/-- Sets the item at place `y` from the end of the list `x` to `y`. -/
def setItem : Block :=
  ⟨{ kind := "lists_setIndex", fields := [⟨"MODE", .ofString "SET", false⟩, ⟨"WHERE", .ofString "FROM_END", false⟩] },
    [⟨"LIST", .value, some (use "x")⟩, ⟨"TO", .value, some (use "y")⟩, ⟨"AT", .value, some (use "y")⟩], none⟩

/-- Takes the item at place `y` from the end out of the list `x`. -/
def takeItem : Block :=
  ⟨{ kind := "lists_getIndex",
     fields := [⟨"MODE", .ofString "GET_REMOVE", false⟩, ⟨"WHERE", .ofString "FROM_END", false⟩] },
    [⟨"VALUE", .value, some (use "x")⟩, ⟨"AT", .value, some (use "y")⟩], none⟩

/-- The letter at place `y` from the end of the text `x`. -/
def askLetter : Block :=
  ⟨{ kind := "text_charAt", fields := [⟨"WHERE", .ofString "FROM_END", false⟩] },
    [⟨"VALUE", .value, some (use "x")⟩, ⟨"AT", .value, some (use "y")⟩], none⟩

theorem accesses_setItem : setItem.Accesses .set .fromEnd (.ofString "x") (.ofString "y") (.ofString "y") where
  kind := rfl
  mode := by simp [setItem, Head.fieldOr, Head.field, Head.field?, Head.written?, Access.mode]
  place := by simp [setItem, Head.fieldOr, Head.field, Head.field?, Head.written?, Spot.option]
  list := holdsVariable_use rfl
  index _ := holdsVariable_use rfl
  value _ := holdsVariable_use rfl

theorem accesses_takeItem : takeItem.Accesses .take .fromEnd (.ofString "x") (.ofString "y") (.ofString "y") where
  kind := rfl
  mode := by simp [takeItem, Head.fieldOr, Head.field, Head.field?, Head.written?, Access.mode]
  place := by simp [takeItem, Head.fieldOr, Head.field, Head.field?, Head.written?, Spot.option]
  list := holdsVariable_use rfl
  index _ := holdsVariable_use rfl
  value hset := by cases hset

theorem asksLetter_askLetter : askLetter.AsksLetter .fromEnd (.ofString "x") (.ofString "y") where
  kind := rfl
  place := by simp [askLetter, Head.fieldOr, Head.field, Head.field?, Head.written?, Spot.option]
  text := holdsVariable_use rfl
  index _ := holdsVariable_use rfl

theorem names_xy :
    let n := (Names.new []).after (requests [.named (.ofString "x"), .named (.ofString "y")])
    n.failure = none ∧ (Leaf.named (.ofString "x")).text n = "x" ∧ (Leaf.named (.ofString "y")).text n = "y" ∧
      n.after (requests [.named (.ofString "y"), .named (.ofString "x"), .named (.ofString "y")]) = n := by
  have hx : Identifier.ofText (.ofString "x") = "x" := by
    rw [Identifier.ofText, RawText.bytes_ofString, Text.bytesOf_eq]
    decide
  have hy : Identifier.ofText (.ofString "y") = "y" := by
    rw [Identifier.ofText, RawText.bytes_ofString, Text.bytesOf_eq]
    decide
  have hslot : Names.slot (.ofString "x") .variable ≠ Names.slot (.ofString "y") .variable := by
    intro h
    have htext := congrArg RawText.text (Names.slot_injective h)
    rw [RawText.text_ofString, RawText.text_ofString] at htext
    exact absurd htext (by decide)
  simp [requests, Names.after, Names.serve, Leaf.text, Leaf.request?, Names.get, Names.resolve, Names.new, Names.reserve,
    Names.distinct, Names.distinctFrom, Names.free?, Names.taken, Names.isReserved, hx, hy, Std.HashMap.getElem_insert,
    hslot, hslot.symm]

/-- Three items in `x`, or three letters, and the place two in `y`. -/
def shelf (x : Value) : Memory :=
  { values := fun name => if name = "x" then some x else if name = "y" then some (.number 2) else none
    lists := [[.number 10, .number 20, .number 30]] }

theorem shelf_agrees_on_position :
    (∃ r p', (listsGetIndex (takeItem.site standard)).run { oneBased := true } { names := Names.new [] } = (.ok r, p') ∧
      ∃ m', r.perform (shelf (.list 0)) = some (.number 20, m') ∧ [[.number 10, .number 30]] <+: m'.lists) ∧
    (∃ r p', (textCharAt (askLetter.site standard)).run { oneBased := true } { names := Names.new [] } = (.ok r, p') ∧
      r.perform (shelf (.text [104, 105, 33])) = some (.text [105], shelf (.text [104, 105, 33]))) ∧
    (∃ r r' p', (do let r ← listsSetIndex (setItem.site standard); let r' ← listsGetIndex (takeItem.site standard)
                    return (r, r')).run { oneBased := true } { names := Names.new [] } = (.ok (r, r'), p') ∧
      ∃ m' m'', r.perform (shelf (.list 0)) = some (.undefined, m') ∧ r'.perform m' = some (.number 2, m'')) := by
  obtain ⟨hnone, hx, hy, hagain⟩ := names_xy
  obtain ⟨hlists, hletters, hread⟩ := @blocks_agree_on_position { oneBased := true } { names := Names.new [] } [] [] rfl rfl
  have hfirst : ∀ v, (shelf v).values ((Leaf.named (.ofString "x")).text _) = some v := fun v => by rw [hx]; rfl
  have hsecond : ∀ v, (shelf v).values ((Leaf.named (.ofString "y")).text _) = some (.number 2) := fun v => by rw [hy]; rfl
  have hscene : ∀ access, Scene (shelf (.list 0)) access .fromEnd ((Leaf.named (.ofString "x")).text _)
      ((Leaf.named (.ofString "y")).text _) ((Leaf.named (.ofString "y")).text _) 0
      [.number 10, .number 20, .number 30] 2 (.number 2) :=
    fun access => ⟨hfirst _, rfl, fun _ => hsecond _, fun _ => hsecond _⟩
  refine ⟨?_, ?_, ?_⟩
  · obtain ⟨r, p', hrun, rfl, hreaches⟩ := (hlists accesses_takeItem).2.run_ok hnone
    obtain ⟨k, item, m', hk, hitem, hperform, -, hafter⟩ := hreaches (hscene .take) (by decide) (by decide)
    have hk' : k = 1 := Int.ofNat_inj.1 hk
    subst hk'
    cases hitem
    exact ⟨r, _, hrun, m', hperform, hafter⟩
  · obtain ⟨r, p', hrun, rfl, hletter⟩ := (hletters asksLetter_askLetter).2.run_ok hnone
    obtain ⟨k, u, hk, hunit, hperform⟩ :=
      hletter (hfirst (.text [104, 105, 33])) (fun _ => hsecond _) (by decide) (by decide)
    have hk' : k = 1 := Int.ofNat_inj.1 hk
    subst hk'
    cases hunit
    exact ⟨r, _, hrun, hperform⟩
  · obtain ⟨⟨r, r'⟩, p', hrun, rfl, hsame⟩ :=
      (hread accesses_setItem accesses_takeItem (.inr rfl) rfl).run_ok ((congrArg Names.failure hagain).trans hnone)
    rw [← hagain] at hscene
    exact ⟨r, r', _, hrun, hsame (hscene .set) (by decide) (by decide)⟩

end Block
end Blockwright
