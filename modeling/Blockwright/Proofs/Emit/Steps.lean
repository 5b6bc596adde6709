import Blockwright.Proofs.Workspace.Trees
/-!
# Actions step by step

An action that is made of two steps succeeds or fails as its steps do, from pass to pass. Taking a
step for each member of a list threads the pass through the members in order: `Threaded` relates
the list, the values its steps give and the passes before and behind. A block is emitted in two
steps: by itself, and then with what is chained behind it.
-/

namespace Blockwright
namespace Emit

variable {α β : Type} {settings : PassSettings} {p q : Pass}

/-! ## Two steps -/

theorem run_bind_of_ok {x : Emit α} {f : α → Emit β} {a : α} (h : x.run settings p = (.ok a, q)) :
    (x >>= f).run settings p = (f a).run settings q := by
  rw [run_bind, h]

theorem run_bind_of_error {x : Emit α} {f : α → Emit β} {e : Failure} (h : x.run settings p = (.error e, q)) :
    (x >>= f).run settings p = (.error e, q) := by
  rw [run_bind, h]

theorem run_pure_eq_ok_iff {a b : α} : (pure a : Emit α).run settings p = (.ok b, q) ↔ b = a ∧ q = p := by
  constructor
  · intro h
    cases h
    exact ⟨rfl, rfl⟩
  · rintro ⟨rfl, rfl⟩
    rfl

/-- Both steps succeed, the second from where the first ends. -/
theorem run_bind_eq_ok_iff {x : Emit α} {f : α → Emit β} {b : β} : (x >>= f).run settings p = (.ok b, q) ↔
    ∃ a p', x.run settings p = (.ok a, p') ∧ (f a).run settings p' = (.ok b, q) := by
  rcases hx : x.run settings p with ⟨e | a, p'⟩
  · rw [run_bind_of_error hx]
    constructor
    · intro h
      cases h
    · rintro ⟨a, p', h, -⟩
      cases h
  · rw [run_bind_of_ok hx]
    constructor
    · exact fun h => ⟨a, p', rfl, h⟩
    · rintro ⟨a', p'', h, hb⟩
      cases h
      exact hb

/-- The first step fails, or the second does from where the first ends. -/
theorem run_bind_eq_error_iff {x : Emit α} {f : α → Emit β} {e : Failure} :
    (x >>= f).run settings p = (.error e, q) ↔ x.run settings p = (.error e, q) ∨
      ∃ a p', x.run settings p = (.ok a, p') ∧ (f a).run settings p' = (.error e, q) := by
  rcases hx : x.run settings p with ⟨e' | a, p'⟩
  · rw [run_bind_of_error hx]
    constructor
    · intro h
      cases h
      exact .inl rfl
    · rintro (h | ⟨a, p', h, -⟩)
      · cases h
        rfl
      · cases h
  · rw [run_bind_of_ok hx]
    constructor
    · exact fun h => .inr ⟨a, p', rfl, h⟩
    · rintro (h | ⟨a', p'', h, he⟩)
      · cases h
      · cases h
        exact he

/-! ## A step for each member of a list -/

/-- The values of steps taken for the members of a list in order, each from the pass in which the
one before ended. -/
inductive Threaded (step : α → Pass → β → Pass → Prop) : List α → Pass → List β → Pass → Prop
  | nil {p : Pass} : Threaded step [] p [] p
  | cons {a : α} {as : List α} {b : β} {bs : List β} {p p' q : Pass} (head : step a p b p')
      (tail : Threaded step as p' bs q) : Threaded step (a :: as) p (b :: bs) q

theorem run_mapM_eq_ok_iff {f : α → Emit β} {as : List α} {bs : List β} :
    (as.mapM f).run settings p = (.ok bs, q) ↔
      Threaded (fun a p b q => (f a).run settings p = (.ok b, q)) as p bs q := by
  induction as generalizing p bs with
  | nil =>
    rw [List.mapM_nil, run_pure_eq_ok_iff]
    constructor
    · rintro ⟨rfl, rfl⟩
      exact .nil
    · intro h
      cases h
      exact ⟨rfl, rfl⟩
  | cons a as ih =>
    rw [List.mapM_cons, run_bind_eq_ok_iff]
    constructor
    · rintro ⟨b, p', hb, hrest⟩
      obtain ⟨bs', p'', hbs, hpure⟩ := run_bind_eq_ok_iff.1 hrest
      obtain ⟨rfl, rfl⟩ := run_pure_eq_ok_iff.1 hpure
      exact .cons hb (ih.1 hbs)
    · intro h
      cases h with
      | cons head tail => exact ⟨_, _, head, run_bind_eq_ok_iff.2 ⟨_, _, ih.2 tail, run_pure_eq_ok_iff.2 ⟨rfl, rfl⟩⟩⟩

namespace Threaded

variable {step : α → Pass → β → Pass → Prop} {as : List α} {bs : List β}

theorem length (h : Threaded step as p bs q) : bs.length = as.length := by
  induction h with
  | nil => rfl
  | cons head tail ih => rw [List.length_cons, List.length_cons, ih]

/-- The value at a place is that of a step for the member there. -/
theorem getElem (h : Threaded step as p bs q) {i : Nat} {a : α} (ha : as[i]? = some a) :
    ∃ b p' q', bs[i]? = some b ∧ step a p' b q' := by
  induction h generalizing i with
  | nil => simp at ha
  | @cons c as b bs p p' q head tail ih =>
    cases i with
    | zero =>
      rw [List.getElem?_cons_zero] at ha
      obtain rfl := Option.some.inj ha
      exact ⟨b, p, p', rfl, head⟩
    | succ i =>
      rw [List.getElem?_cons_succ] at ha ⊢
      exact ih ha

end Threaded

/-! ## Emitting one block -/

theorem run_inBlock_eq_ok_iff {x : Emit α} {b : BlockName} {a : α} :
    (inBlock b x).run settings p = (.ok a, q) ↔ x.run settings p = (.ok a, q) := by
  rw [inBlock, run_tryCatch]
  rcases x.run settings p with ⟨e | a', p'⟩
  · constructor <;>
    · intro h
      cases h
  · rfl

theorem run_check_eq_ok_iff {u : Unit} : check.run settings p = (.ok u, q) ↔ q = p ∧ p.failure? = none := by
  rw [check, run_bind_of_ok (a := p) (q := p) rfl]
  cases p.failure? with
  | none => simp [run_pure_eq_ok_iff]
  | some cause =>
    constructor
    · intro h
      cases h
    · rintro ⟨-, h⟩
      cases h

end Emit

namespace Site

variable {emitters : Emitters} {settings : PassSettings} {p q : Pass}

/-- A result with the comments of a block in front of its code. -/
def commented (s : Site) : Result → Result
  | .handled => .handled
  | .statement code => .statement (commentLines s.block ++ code)
  | .value code order => .value (commentLines s.block ++ code) order

/-- A result with the code of what is chained behind the block after its own. -/
def followed (s : Site) : Result → Emit Result
  | .handled => return .handled
  | .statement code => do return .statement (code ++ (← s.nextCode))
  | .value code order => do return .value (code ++ (← s.nextCode)) order

/-- A block is emitted by emitting it by itself, and then what is chained behind it. -/
theorem emit_false_eq (s : Site) : s.emit emitters false = s.emit emitters true >>= s.followed := by
  rw [emit, emit, bind_assoc]
  refine bind_congr fun r => ?_
  cases r with
  | handled => rw [pure_bind, followed]
  | statement code =>
    simp only [dress, followed, bind_assoc, pure_bind, String.append_empty, if_pos, Bool.false_eq_true, if_neg,
      not_false_eq_true]
  | value code order =>
    by_cases hlink : (s.head.link != .value && s.head.link != .top) = true
    · simp only [hlink, if_pos, bind_assoc]
      rfl
    · simp only [hlink, dress, followed, bind_assoc, pure_bind, String.append_empty, if_pos, Bool.false_eq_true, if_neg,
        not_false_eq_true]

/-- A block that is emitted by itself is emitted by the emitter of its kind, and it hangs from no
statement if that gives a value. -/
theorem exists_of_run_emit {s : Site} {r : Result} (h : (s.emit emitters true).run settings p = (.ok r, q)) :
    ∃ emitter own, emitters.lookup s.head.kind = some emitter ∧ (emitter s).run settings p = (.ok own, q) ∧
      r = s.commented own ∧
      ((∃ code order, own = .value code order) → s.head.link = .value ∨ s.head.link = .top) := by
  rw [emit, Emit.run_bind_eq_ok_iff] at h
  obtain ⟨own, p', hown, hr⟩ := h
  rw [Emit.run_inBlock_eq_ok_iff] at hown
  cases hfound : emitters.lookup s.head.kind with
  | none =>
    rw [hfound] at hown
    cases hown
  | some emitter =>
    rw [hfound] at hown
    dsimp only at hown
    obtain ⟨own', p₁, hemitter, hchecked⟩ := Emit.run_bind_eq_ok_iff.1 hown
    obtain ⟨u, p₂, hcheck, hpure⟩ := Emit.run_bind_eq_ok_iff.1 hchecked
    obtain ⟨rfl, -⟩ := Emit.run_check_eq_ok_iff.1 hcheck
    obtain ⟨rfl, rfl⟩ := Emit.run_pure_eq_ok_iff.1 hpure
    refine ⟨emitter, own, rfl, ?_⟩
    cases own with
    | handled =>
      obtain ⟨rfl, rfl⟩ := Emit.run_pure_eq_ok_iff.1 hr
      exact ⟨hemitter, rfl, by simp⟩
    | statement code =>
      simp only [dress, if_pos, pure_bind, String.append_empty] at hr
      obtain ⟨rfl, rfl⟩ := Emit.run_pure_eq_ok_iff.1 hr
      exact ⟨hemitter, rfl, by simp⟩
    | value code order =>
      by_cases hlink : (s.head.link != .value && s.head.link != .top) = true
      · simp only [hlink, if_pos] at hr
        cases hr
      · simp only [hlink, dress, if_pos, pure_bind, String.append_empty, Bool.false_eq_true, if_neg,
          not_false_eq_true] at hr
        obtain ⟨rfl, rfl⟩ := Emit.run_pure_eq_ok_iff.1 hr
        refine ⟨hemitter, rfl, fun _ => ?_⟩
        simpa [Classical.or_iff_not_imp_left] using hlink

/-- A block is emitted by itself only while no failure is on record. -/
theorem failure?_of_run_emit {s : Site} {r : Result} (h : (s.emit emitters true).run settings p = (.ok r, q)) :
    q.failure? = none := by
  obtain ⟨emitter, own, hfound, hown, -, -⟩ := exists_of_run_emit h
  rw [emit, Emit.run_bind_eq_ok_iff] at h
  obtain ⟨own', p', hchecked, -⟩ := h
  rw [Emit.run_inBlock_eq_ok_iff, hfound] at hchecked
  obtain ⟨own'', p'', hown', hrest⟩ := Emit.run_bind_eq_ok_iff.1 hchecked
  obtain ⟨u, p₁, hcheck, -⟩ := Emit.run_bind_eq_ok_iff.1 hrest
  obtain ⟨-, rfl⟩ := Prod.mk.inj (hown.symm.trans hown')
  exact (Emit.run_check_eq_ok_iff.1 hcheck).2

theorem run_emit_of_statement {s : Site} {emitter : Emitter} {code : String}
    (hfound : emitters.lookup s.head.kind = some emitter)
    (hown : (emitter s).run settings p = (.ok (.statement code), q)) (hclean : q.failure? = none) :
    (s.emit emitters true).run settings p = (.ok (.statement (commentLines s.block ++ code)), q) := by
  rw [emit]
  refine Emit.run_bind_eq_ok_iff.2 ⟨.statement code, q, ?_, ?_⟩
  · rw [Emit.run_inBlock_eq_ok_iff, hfound]
    refine Emit.run_bind_eq_ok_iff.2 ⟨_, _, hown, Emit.run_bind_eq_ok_iff.2 ⟨(), q, ?_, rfl⟩⟩
    exact Emit.run_check_eq_ok_iff.2 ⟨rfl, hclean⟩
  · simp only [dress, if_pos, pure_bind, String.append_empty]
    rfl

/-- What becomes of a block's own result: its comments come in front, and what is chained behind it
comes after it unless only the block itself is wanted. -/
def completed (s : Site) (thisOnly : Bool) (own : Result) : Emit Result :=
  if thisOnly then return s.commented own else s.followed (s.commented own)

theorem exists_of_run_emit_completed {s : Site} {thisOnly : Bool} {r : Result}
    (h : (s.emit emitters thisOnly).run settings p = (.ok r, q)) :
    ∃ emitter own p', emitters.lookup s.head.kind = some emitter ∧ (emitter s).run settings p = (.ok own, p') ∧
      (s.completed thisOnly own).run settings p' = (.ok r, q) := by
  cases thisOnly with
  | true =>
    obtain ⟨emitter, own, hfound, hown, rfl, -⟩ := exists_of_run_emit h
    exact ⟨emitter, own, q, hfound, hown, rfl⟩
  | false =>
    rw [emit_false_eq, Emit.run_bind_eq_ok_iff] at h
    obtain ⟨r', p', hr', hr⟩ := h
    obtain ⟨emitter, own, hfound, hown, rfl, -⟩ := exists_of_run_emit hr'
    exact ⟨emitter, own, p', hfound, hown, hr⟩

end Site

namespace Block

theorem emit_of_enabled {emitters : Emitters} {b : Block} (h : b.head.disabled = false) (thisOnly : Bool) :
    b.emit emitters thisOnly = (b.site emitters).emit emitters thisOnly := by
  rw [emit_eq, h, if_neg Bool.false_ne_true]

end Block
end Blockwright
