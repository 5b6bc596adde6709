import Blockwright.Proofs.Emit.Steps
import Blockwright.Proofs.Workspace.Trees
import Blockwright.Text.Chars
/-!
# Sequences of statements

A block and the blocks chained behind it form a sequence. Emitting its first block emits the
enabled blocks of the sequence one after the other: the code is theirs put together, the pass goes
through each of them in turn, and a failure is the failure of one of them.
-/

namespace Blockwright

theorem Text.joinWith_empty_cons (s : String) (rest : List String) :
    Text.joinWith "" (s :: rest) = s ++ Text.joinWith "" rest := by
  cases rest with
  | nil => rw [Text.joinWith, Text.joinWith, String.append_empty]
  | cons t rest => rw [Text.joinWith, String.append_empty]

variable {emitters : Emitters} {settings : PassSettings} {p q : Pass}

namespace Block

/-! ## The blocks of a sequence -/

mutual

/-- The block and the blocks chained behind it, in order. -/
def sequence : Block → List Block
  | ⟨head, sockets, next⟩ => ⟨head, sockets, next⟩ :: sequenceBehind next

/-- The blocks of the sequence behind a block. -/
def sequenceBehind : Option Block → List Block
  | none => []
  | some b => sequence b

end

theorem sequence_eq (b : Block) : b.sequence = b :: sequenceBehind b.next := by
  obtain ⟨head, sockets, next⟩ := b
  rw [sequence]

/-- The blocks of a list that are not disabled. -/
def enabled (bs : List Block) : List Block := bs.filter fun b => !b.head.disabled

theorem enabled_cons_of_disabled {b : Block} (h : b.head.disabled = true) (bs : List Block) :
    enabled (b :: bs) = enabled bs := by
  simp [enabled, h]

theorem enabled_cons {b : Block} (h : b.head.disabled = false) (bs : List Block) :
    enabled (b :: bs) = b :: enabled bs := by
  simp [enabled, h]

/-- Emitted one after the other from a pass on, each of the blocks gives a statement if it gives
anything. -/
def Stating (emitters : Emitters) (settings : PassSettings) : Pass → List Block → Prop
  | _, [] => True
  | p, b :: rest => ∀ r q, (b.emit emitters true).run settings p = (.ok r, q) →
    (∃ code, r = .statement code) ∧ Stating emitters settings q rest

/-- Emits blocks one after the other, each by itself, and gives back their codes. -/
def emitEach (emitters : Emitters) : List Block → Emit (List String)
  | [] => return []
  | b :: rest => do return (← b.emit emitters true).code :: (← emitEach emitters rest)

/-! ## Emitting a sequence -/

/-- What the codes of the enabled blocks of a sequence are together: a sequence without such blocks
has no code. -/
def together (codes : List String) : Result :=
  if codes = [] then .handled else .statement (Text.joinWith "" codes)

theorem code_together (codes : List String) : (together codes).code = Text.joinWith "" codes := by
  cases codes with
  | nil => rfl
  | cons code codes => rfl

/-- What is chained behind a block is the sequence that its next block begins. -/
theorem run_nextCode {b : Block}
    (h : ∀ c, b.next = some c → (c.emit emitters false).run settings p =
      (do return together (← emitEach emitters (enabled c.sequence))).run settings p) :
    (b.site emitters).nextCode.run settings p =
      (do return Text.joinWith "" (← emitEach emitters (enabled (sequenceBehind b.next)))).run settings p := by
  obtain ⟨head, sockets, _ | c⟩ := b
  · rfl
  · have hc := h c rfl
    rw [Site.nextCode, site, nextPlug]
    dsimp only
    rw [Emit.run_bind, hc, sequenceBehind]
    rcases heach : (emitEach emitters (enabled c.sequence)).run settings p with ⟨f | codes, q⟩
    · rw [Emit.run_bind_of_error heach, Emit.run_bind_of_error heach]
    · rw [Emit.run_bind_of_ok heach, Emit.run_bind_of_ok heach]
      cases codes with
      | nil => rfl
      | cons code codes => rfl

/-- The sequence that a block begins is emitted by emitting its enabled blocks one by one. -/
theorem run_emit_eq_emitEach {b : Block} (h : Stating emitters settings p (enabled b.sequence)) :
    (b.emit emitters false).run settings p =
      (do return together (← emitEach emitters (enabled b.sequence))).run settings p := by
  induction b using inductionOn generalizing p with
  | h b ih =>
    rw [sequence_eq] at h ⊢
    cases hdisabled : b.head.disabled with
    | true =>
      rw [enabled_cons_of_disabled hdisabled] at h ⊢
      rw [emit_eq, if_pos hdisabled, if_neg Bool.false_ne_true]
      cases hnext : b.next with
      | none => rfl
      | some c =>
        rw [hnext] at h
        exact ih c (.inr hnext) h
    | false =>
      rw [enabled_cons hdisabled] at h ⊢
      rw [emit_of_enabled hdisabled, Site.emit_false_eq, ← emit_of_enabled hdisabled, emitEach, bind_assoc]
      rcases hown : (b.emit emitters true).run settings p with ⟨f | r, q⟩
      · rw [Emit.run_bind_of_error hown, Emit.run_bind_of_error hown]
      · obtain ⟨⟨code, rfl⟩, hrest⟩ := h r q hown
        have hnext := run_nextCode (b := b) fun c hc => ih c (.inr hc) (by rwa [hc] at hrest)
        rw [Emit.run_bind_of_ok hown, Emit.run_bind_of_ok hown, Site.followed, Emit.run_bind, hnext, bind_assoc]
        rcases heach : (emitEach emitters (enabled (sequenceBehind b.next))).run settings q with ⟨f | codes, q'⟩
        · rw [Emit.run_bind_of_error heach, Emit.run_bind_of_error heach]
        · rw [Emit.run_bind_of_ok heach, Emit.run_bind_of_ok heach]
          simp only [together, Text.joinWith_empty_cons, if_neg (List.cons_ne_nil _ _), pure_bind]
          rfl

/-! ## Failures -/

/-- Where one of some blocks fails when each is emitted by itself. -/
theorem exists_of_emitEach_error {bs : List Block} {f : Failure}
    (h : (emitEach emitters bs).run settings p = (.error f, q)) :
    ∃ before c after codes p', bs = before ++ c :: after ∧
      (emitEach emitters before).run settings p = (.ok codes, p') ∧
      (c.emit emitters true).run settings p' = (.error f, q) := by
  induction bs generalizing p with
  | nil => cases h
  | cons b bs ih =>
    rw [emitEach, Emit.run_bind_eq_error_iff] at h
    rcases h with hb | ⟨r, p', hb, hrest⟩
    · exact ⟨[], b, bs, [], p, rfl, rfl, hb⟩
    · rcases Emit.run_bind_eq_error_iff.1 hrest with hbs | ⟨codes, p'', -, hpure⟩
      · obtain ⟨before, c, after, codes, p'', rfl, hbefore, hc⟩ := ih hbs
        refine ⟨b :: before, c, after, r.code :: codes, p'', rfl, ?_, hc⟩
        rw [emitEach, Emit.run_bind_of_ok hb, Emit.run_bind_of_ok hbefore]
        rfl
      · cases hpure

/-- An enabled block that fails by itself fails in the same way with what is chained behind it. -/
theorem run_emit_of_error {b : Block} (hb : b.head.disabled = false) {f : Failure}
    (h : (b.emit emitters true).run settings p = (.error f, q)) :
    (b.emit emitters false).run settings p = (.error f, q) := by
  rw [emit_of_enabled hb] at h ⊢
  rw [Site.emit_false_eq, Emit.run_bind, h]

/-- Emitting a sequence of statements, of which some may be disabled, is emitting its enabled blocks
by themselves, one after the other from the same pass on: the code is theirs put together, both end
in the same pass, and both fail alike. The block that fails is the same too: where the blocks before
it have been emitted, it fails by itself and as the start of the rest of the sequence. -/
theorem emit_sequence (emitters : Emitters) (settings : PassSettings) (p : Pass) (b : Block)
    (h : Stating emitters settings p (enabled b.sequence)) :
    (do return (← b.emit emitters false).code).run settings p =
        (do return Text.joinWith "" (← emitEach emitters (enabled b.sequence))).run settings p ∧
      ∀ f q, (b.emit emitters false).run settings p = (.error f, q) →
        ∃ before c after codes p', enabled b.sequence = before ++ c :: after ∧
          (emitEach emitters before).run settings p = (.ok codes, p') ∧
          (c.emit emitters true).run settings p' = (.error f, q) ∧
          (c.emit emitters false).run settings p' = (.error f, q) := by
  have hrun := run_emit_eq_emitEach h
  refine ⟨?_, fun f q hfailed => ?_⟩
  · rw [Emit.run_bind, hrun]
    rcases heach : (emitEach emitters (enabled b.sequence)).run settings p with ⟨f | codes, q⟩
    · rw [Emit.run_bind_of_error heach, Emit.run_bind_of_error heach]
    · rw [Emit.run_bind_of_ok heach, Emit.run_bind_of_ok heach, ← code_together]
      rfl
  · rw [hrun] at hfailed
    rcases Emit.run_bind_eq_error_iff.1 hfailed with heach | ⟨codes, p', -, hpure⟩
    · obtain ⟨before, c, after, codes, p', hsplit, hbefore, hc⟩ := exists_of_emitEach_error heach
      have hmem : c ∈ enabled b.sequence := by
        rw [hsplit]
        exact List.mem_append_right _ List.mem_cons_self
      have hc' : c.head.disabled = false := by simpa [enabled] using (List.mem_filter.1 hmem).2
      exact ⟨before, c, after, codes, p', hsplit, hbefore, hc, run_emit_of_error hc' hc⟩
    · cases hpure

/-- Blocks state in any order whose kinds have emitters that never give back anything but a
statement. -/
theorem stating_of_emitters
    (h : ∀ e ∈ emitters, ∀ s p r q, (e.2 s).run settings p = (.ok r, q) → ∃ code, r = .statement code)
    {bs : List Block} (hbs : ∀ b ∈ bs, b.head.disabled = false) : Stating emitters settings p bs := by
  induction bs generalizing p with
  | nil => trivial
  | cons b bs ih =>
    intro r q hr
    refine ⟨?_, ih fun c hc => hbs c (List.mem_cons_of_mem _ hc)⟩
    rw [emit_of_enabled (hbs b List.mem_cons_self)] at hr
    obtain ⟨emitter, own, hfound, hown, rfl, -⟩ := Site.exists_of_run_emit hr
    obtain ⟨code, rfl⟩ := h _ (mem_of_lookup hfound) _ _ _ _ hown
    exact ⟨_, rfl⟩

/-- One kind of block: it keeps its text in front of the program and says it in place. -/
def saying : Emitters := [("say", fun s => do
  Emit.define (s.head.written "TEXT") (s.head.field "TEXT")
  return .statement (s.head.field "TEXT"))]

/-- A block that says a text. -/
def say (text : String) (disabled : Bool) (next : Option Block) : Block :=
  ⟨{ kind := "say", fields := [{ name := "TEXT", value := .ofString text }], disabled }, [], next⟩

/-- Three blocks in sequence, the second of them disabled. -/
def saidTwice : Block := say "a" false (some (say "b" true (some (say "c" false none))))

/-- The sequence states, so its code and its pass are those of the first block and the third. -/
theorem emit_saidTwice : Stating saying {} { names := {} } (enabled saidTwice.sequence) ∧
    (do return (← saidTwice.emit saying false).code).run {} { names := {} } =
      (do return Text.joinWith "" (← emitEach saying [say "a" false (some (say "b" true (some (say "c" false none)))),
        say "c" false none])).run {} { names := {} } := by
  have hstating : Stating saying {} { names := {} } (enabled saidTwice.sequence) := by
    refine stating_of_emitters (fun e he s p r q h => ?_) fun b hb => ?_
    · obtain rfl := List.mem_singleton.1 he
      obtain ⟨u, p', -, hpure⟩ := Emit.run_bind_eq_ok_iff.1 h
      exact ⟨_, (Emit.run_pure_eq_ok_iff.1 hpure).1⟩
    · simpa [enabled] using (List.mem_filter.1 hb).2
  exact ⟨hstating, (emit_sequence saying {} { names := {} } saidTwice hstating).1⟩

end Block
end Blockwright
