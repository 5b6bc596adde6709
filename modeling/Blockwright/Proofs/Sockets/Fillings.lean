import Blockwright.Proofs.Emit.Steps
/-!
# What is in a socket

A value socket is filled with the code of the block in it and the precedence of that code, unless no
code comes of it; a socket for statements is filled with their code. What an emitter reads from a
socket depends on this filling alone.
-/

namespace Blockwright

variable {emitters : Emitters} {settings : PassSettings} {p q : Pass} {b : Block} {socket : String}

namespace Block

/-- Every block chained behind another block of the tree is linked to it as such. -/
def Chained (b : Block) : Prop := ∀ b' ∈ b.blocks, ∀ c, b'.next = some c → c.head.link = .next

/-- The emission of the value socket gives code of a precedence, from one pass to another; `none` if no
code comes of it, as when the socket is empty. -/
inductive Filling (emitters : Emitters) (settings : PassSettings) (b : Block) (socket : String) :
    Pass → Option (String × Order) → Pass → Prop
  | code {c : Block} {code : String} {order : Order} {p q : Pass} (plugged : b.plugged? socket = some c)
    (run : (c.emit emitters false).run settings p = (.ok (.value code order), q)) (ne : code ≠ "") :
    Filling emitters settings b socket p (some (code, order)) q
  | noCode {c : Block} {r : Result} {p q : Pass} (plugged : b.plugged? socket = some c)
    (run : (c.emit emitters false).run settings p = (.ok r, q)) (empty : r = .handled ∨ ∃ order, r = .value "" order) :
    Filling emitters settings b socket p none q
  | noBlock {p : Pass} (plugged : b.plugged? socket = none) : Filling emitters settings b socket p none p

/-- The emission of the socket for statements gives code, from one pass to another; the empty code if
nothing comes of it, as when the socket is empty. -/
inductive Body (emitters : Emitters) (settings : PassSettings) (b : Block) (socket : String) :
    Pass → String → Pass → Prop
  | code {c : Block} {code : String} {p q : Pass} (plugged : b.plugged? socket = some c)
    (run : (c.emit emitters false).run settings p = (.ok (.statement code), q)) :
    Body emitters settings b socket p code q
  | handled {c : Block} {p q : Pass} (plugged : b.plugged? socket = some c)
    (run : (c.emit emitters false).run settings p = (.ok .handled, q)) : Body emitters settings b socket p "" q
  | noBlock {p : Pass} (plugged : b.plugged? socket = none) : Body emitters settings b socket p "" p

end Block

/-- What is written for the filling of a value socket: its code, in parentheses where the place of
precedence `outer` needs them, or else the fallback. -/
def inPlace (outer : Order) (fallback : String) : Option (String × Order) → String
  | some (code, order) => Order.wrap code outer order
  | none => fallback

/-- What is written for statements in a socket: they stand one level deeper. -/
def deeper (settings : PassSettings) (code : String) : String :=
  if code = "" then "" else Text.prefixLines code settings.indent

theorem Order.wrap_ne_empty {code : String} (h : code ≠ "") (outer inner : Order) : Order.wrap code outer inner ≠ "" := by
  unfold Order.wrap
  split
  · intro hempty
    have hlist := congrArg String.toList hempty
    simp at hlist
  · exact h

namespace Block

/-- Reading a value socket writes its filling in place. -/
theorem exists_filling {outer : Order} {fallback code : String}
    (h : ((b.site emitters).valueOr socket outer fallback).run settings p = (.ok code, q)) :
    ∃ filling, b.Filling emitters settings socket p filling q ∧ code = inPlace outer fallback filling := by
  rw [Site.valueOr, Emit.run_bind_eq_ok_iff] at h
  obtain ⟨read, p', hread, hcode⟩ := h
  obtain ⟨rfl, rfl⟩ := Emit.run_pure_eq_ok_iff.1 hcode
  rw [Site.value, plug?_site_eq] at hread
  cases hplugged : b.plugged? socket with
  | none =>
    rw [hplugged] at hread
    obtain ⟨rfl, rfl⟩ := Emit.run_pure_eq_ok_iff.1 hread
    exact ⟨none, .noBlock hplugged, rfl⟩
  | some c =>
    rw [hplugged] at hread
    obtain ⟨r, p₁, hrun, hr⟩ := Emit.run_bind_eq_ok_iff.1 hread
    cases r with
    | handled =>
      obtain ⟨rfl, rfl⟩ := Emit.run_pure_eq_ok_iff.1 hr
      exact ⟨none, .noCode hplugged hrun (.inl rfl), rfl⟩
    | statement code => cases hr
    | value code order =>
      obtain ⟨rfl, rfl⟩ := Emit.run_pure_eq_ok_iff.1 hr
      by_cases hempty : code = ""
      · subst hempty
        exact ⟨none, .noCode hplugged hrun (.inr ⟨order, rfl⟩), rfl⟩
      · refine ⟨some (code, order), .code hplugged hrun hempty, ?_⟩
        rw [if_neg hempty, if_neg (Order.wrap_ne_empty hempty _ _), inPlace]

/-- Reading sockets one after the other writes the filling of each in place. -/
theorem exists_fillings {ι : Type} {socket : ι → String} {outer : Order} {fallback : String} {is : List ι} {codes : List String}
    (h : Emit.Threaded (fun i p code q => ((b.site emitters).valueOr (socket i) outer fallback).run settings p = (.ok code, q))
      is p codes q) :
    ∃ fillings, Emit.Threaded (fun i => b.Filling emitters settings (socket i)) is p fillings q ∧
      codes = fillings.map (inPlace outer fallback) := by
  induction h with
  | nil => exact ⟨[], .nil, rfl⟩
  | cons head tail ih =>
    obtain ⟨filling, hfilling, rfl⟩ := exists_filling head
    obtain ⟨fillings, hfillings, rfl⟩ := ih
    exact ⟨filling :: fillings, .cons hfilling hfillings, rfl⟩

/-- Reading a socket for statements writes its body one level deeper. -/
theorem exists_body {code : String} (h : ((b.site emitters).statements socket).run settings p = (.ok code, q)) :
    ∃ body, b.Body emitters settings socket p body q ∧ code = deeper settings body := by
  rw [Site.statements, plug?_site_eq] at h
  cases hplugged : b.plugged? socket with
  | none =>
    rw [hplugged] at h
    obtain ⟨rfl, rfl⟩ := Emit.run_pure_eq_ok_iff.1 h
    exact ⟨"", .noBlock hplugged, rfl⟩
  | some c =>
    rw [hplugged] at h
    obtain ⟨r, p₁, hrun, hr⟩ := Emit.run_bind_eq_ok_iff.1 h
    cases r with
    | handled =>
      obtain ⟨rfl, rfl⟩ := Emit.run_pure_eq_ok_iff.1 hr
      exact ⟨"", .handled hplugged hrun, rfl⟩
    | value code order => cases hr
    | statement body =>
      by_cases hempty : body = ""
      · subst hempty
        obtain ⟨rfl, rfl⟩ := Emit.run_pure_eq_ok_iff.1 hr
        exact ⟨"", .code hplugged hrun, rfl⟩
      · dsimp only at hr
        rw [if_neg hempty] at hr
        obtain ⟨indent, p₂, hindent, hpure⟩ := Emit.run_bind_eq_ok_iff.1 hr
        obtain ⟨rfl, rfl⟩ := Emit.run_pure_eq_ok_iff.1 hpure
        cases hindent
        exact ⟨body, .code hplugged hrun, (if_neg hempty).symm⟩

/-! ## Disabled blocks -/

theorem Chained.of_holds {c : Block} (h : b.Chained) (hc : b.Holds c) : c.Chained :=
  fun b' hb' => h b' (hc.mem_blocks hb')

/-- What hangs from a statement gives no value. -/
theorem not_value_of_link {r : Result} (h : b.Chained) (hlink : b.head.link = .next)
    (hrun : (b.emit emitters false).run settings p = (.ok r, q)) : ∀ code order, r ≠ .value code order := by
  induction b using inductionOn generalizing p with
  | h b ih =>
    cases hdisabled : b.head.disabled with
    | true =>
      rw [emit_eq, if_pos hdisabled, if_neg Bool.false_ne_true] at hrun
      cases hnext : b.next with
      | none =>
        rw [hnext] at hrun
        obtain ⟨rfl, -⟩ := Emit.run_pure_eq_ok_iff.1 hrun
        exact fun _ _ => Result.noConfusion
      | some c =>
        rw [hnext] at hrun
        exact ih c (.inr hnext) (h.of_holds (.inr hnext)) (h b b.mem_blocks_self c hnext) hrun
    | false =>
      rw [emit_of_enabled hdisabled, Site.emit_false_eq, Emit.run_bind_eq_ok_iff] at hrun
      obtain ⟨r', p', hr', hfollowed⟩ := hrun
      obtain ⟨emitter, own, -, -, rfl, hvalue⟩ := Site.exists_of_run_emit hr'
      cases own with
      | handled =>
        obtain ⟨rfl, -⟩ := Emit.run_pure_eq_ok_iff.1 hfollowed
        exact fun _ _ => Result.noConfusion
      | statement code =>
        obtain ⟨next, p'', -, hpure⟩ := Emit.run_bind_eq_ok_iff.1 hfollowed
        obtain ⟨rfl, -⟩ := Emit.run_pure_eq_ok_iff.1 hpure
        exact fun _ _ => Result.noConfusion
      | value code order =>
        have hlink' := hvalue ⟨code, order, rfl⟩
        have hhead : (b.site emitters).head.link = .next := hlink
        rw [hhead] at hlink'
        simp at hlink'

/-- A disabled block in a value socket leaves it without code. -/
theorem Filling.eq_none_of_disabled {filling : Option (String × Order)} {c : Block}
    (h : b.Filling emitters settings socket p filling q) (hc : b.plugged? socket = some c)
    (hdisabled : c.head.disabled = true) (hchained : c.Chained) : filling = none := by
  cases h with
  | noCode => rfl
  | noBlock => rfl
  | @code c' code order _ _ hplugged hrun hne =>
    obtain rfl := Option.some.inj (hc.symm.trans hplugged)
    rw [emit_eq, if_pos hdisabled, if_neg Bool.false_ne_true] at hrun
    cases hnext : c.next with
    | none =>
      rw [hnext] at hrun
      cases hrun
    | some d =>
      rw [hnext] at hrun
      exact absurd rfl (not_value_of_link (hchained.of_holds (.inr hnext))
        (hchained c c.mem_blocks_self d hnext) hrun code order)

end Block
end Blockwright
