import Blockwright.Proofs.Text.Sealed
/-!
# Filled in and indented

Replacing a mark and rewriting indentation, said piece by piece: a text is cut at its marks and
joined with what is put there, and it is cut at its line feeds and each line is indented on its
own.
-/

namespace Blockwright.Text

/-! ## Joined texts -/

theorem toList_joinWith (sep : String) (pieces : List String) :
    (joinWith sep pieces).toList = sep.toList.intercalate (pieces.map String.toList) := by
  fun_induction joinWith sep pieces with
  | case1 => simp [List.intercalate]
  | case2 s => simp [List.intercalate]
  | case3 s t rest ih =>
    rw [String.toList_append, String.toList_append, ih]
    simp [List.intercalate]

theorem joinWith_ofList (sep : String) (pieces : List (List Char)) :
    joinWith sep (pieces.map String.ofList) = String.ofList (sep.toList.intercalate pieces) := by
  apply String.toList_injective
  rw [toList_joinWith, String.toList_ofList, List.map_map]
  congr 1
  exact (List.map_congr_left fun cs _ => String.toList_ofList).trans (List.map_id _)

theorem mem_joinWith {c : Char} {sep : String} {pieces : List String} (h : c ∈ (joinWith sep pieces).toList) :
    c ∈ sep.toList ∨ ∃ piece ∈ pieces, c ∈ piece.toList := by
  fun_induction joinWith sep pieces with
  | case1 => simp at h
  | case2 s => exact .inr ⟨s, List.mem_cons_self, h⟩
  | case3 s t rest ih =>
    simp only [String.toList_append, List.mem_append] at h
    rcases h with (hs | hsep) | hrest
    · exact .inr ⟨s, List.mem_cons_self, hs⟩
    · exact .inl hsep
    · rcases ih hrest with hsep | ⟨piece, hpiece, hc⟩
      · exact .inl hsep
      · exact .inr ⟨piece, List.mem_cons_of_mem _ hpiece, hc⟩

theorem intercalate_cons_append (sep front piece : List Char) (pieces : List (List Char)) :
    sep.intercalate ((front ++ piece) :: pieces) = front ++ sep.intercalate (piece :: pieces) := by
  cases pieces <;> simp [List.intercalate, List.intersperse]

theorem intercalate_nil_cons (sep piece : List Char) (pieces : List (List Char)) :
    sep.intercalate ([] :: piece :: pieces) = sep ++ sep.intercalate (piece :: pieces) := by
  simp [List.intercalate, List.intersperse]

theorem splitChars_ne_nil (sep : Char) (cs : List Char) : splitChars sep cs ≠ [] := by
  fun_cases splitChars sep cs with grind

theorem exists_splitChars (sep : Char) (cs : List Char) : ∃ piece pieces, splitChars sep cs = piece :: pieces :=
  List.exists_cons_of_ne_nil (splitChars_ne_nil sep cs)

/-- A piece is made of characters of the text, and the separator is not among them. -/
theorem mem_of_mem_splitChars {sep c : Char} {cs piece : List Char} (hp : piece ∈ splitChars sep cs) (hc : c ∈ piece) :
    c ∈ cs ∧ c ≠ sep := by
  fun_induction splitChars sep cs generalizing piece with
  | case1 =>
    rw [List.mem_singleton.1 hp] at hc
    cases hc
  | case2 rest ih =>
    rcases List.mem_cons.1 hp with rfl | hp
    · cases hc
    · exact ⟨List.mem_cons_of_mem _ (ih hp hc).1, (ih hp hc).2⟩
  | case3 d rest hd hnil ih => exact absurd hnil (splitChars_ne_nil sep rest)
  | case4 d rest hd first pieces hsplit ih =>
    rw [hsplit] at ih
    rcases List.mem_cons.1 hp with rfl | hp
    · rcases List.mem_cons.1 hc with rfl | hc
      · exact ⟨List.mem_cons_self, hd⟩
      · exact ⟨List.mem_cons_of_mem _ (ih List.mem_cons_self hc).1, (ih List.mem_cons_self hc).2⟩
    · exact ⟨List.mem_cons_of_mem _ (ih (List.mem_cons_of_mem _ hp) hc).1, (ih (List.mem_cons_of_mem _ hp) hc).2⟩

/-- The pieces of a text with the separator between them are the text. -/
theorem intercalate_splitChars (sep : Char) (cs : List Char) : [sep].intercalate (splitChars sep cs) = cs := by
  fun_induction splitChars sep cs with
  | case1 => rfl
  | case2 rest ih =>
    obtain ⟨piece, pieces, hsplit⟩ := exists_splitChars sep rest
    rw [hsplit] at ih ⊢
    rw [intercalate_nil_cons, ih]
    rfl
  | case3 c rest hc hnil ih => exact absurd hnil (splitChars_ne_nil sep rest)
  | case4 c rest hc piece pieces hsplit ih =>
    rw [hsplit] at ih
    have hcons := intercalate_cons_append [sep] [c] piece pieces
    rw [List.singleton_append] at hcons
    rw [hcons, ih]
    rfl

theorem eq_of_splitChars_eq_singleton {sep : Char} {cs piece : List Char} (h : splitChars sep cs = [piece]) : piece = cs := by
  simpa [h, List.intercalate] using intercalate_splitChars sep cs

/-- Only a text without the separator is one piece. -/
theorem splitChars_eq_singleton_iff (sep : Char) (cs : List Char) : splitChars sep cs = [cs] ↔ sep ∉ cs := by
  constructor
  · intro hone hsep
    exact (mem_of_mem_splitChars (hone ▸ List.mem_singleton_self cs) hsep).2 rfl
  · intro hno
    obtain ⟨piece, pieces, hsplit⟩ := exists_splitChars sep cs
    cases pieces with
    | nil => rw [hsplit, eq_of_splitChars_eq_singleton hsplit]
    | cons next pieces =>
      -- two pieces would have the separator between them
      refine absurd ?_ hno
      rw [← intercalate_splitChars sep cs, hsplit]
      simp [List.intercalate]

/-! ## Marks -/

/-- A text is cut at the occurrences of a mark, found from the left, and joined again with what is
put in their place. -/
theorem replaceAfter_eq_intercalate {find : List Char} (hfind : find ≠ []) (put cs : List Char) :
    ∃ piece pieces, (∀ p ∈ piece :: pieces, ¬ find <:+: p) ∧ cs = find.intercalate (piece :: pieces) ∧
      replaceAfter find put 0 cs = put.intercalate (piece :: pieces) := by
  -- by the length of what is left, since an occurrence is passed over as a whole
  induction hn : cs.length using Nat.strongRecOn generalizing cs with
  | ind n ih =>
    subst hn
    cases cs with
    | nil => exact ⟨[], [], by simpa using hfind, rfl, rfl⟩
    | cons c cs =>
      rw [replaceAfter]
      split_ifs with hstart
      · obtain ⟨more, hmore⟩ := List.isPrefixOf_iff_prefix.1 hstart
        have hskip : cs.drop (find.length - 1) = more := by
          obtain ⟨f, fs, rfl⟩ := List.exists_cons_of_ne_nil hfind
          obtain ⟨-, rfl⟩ := List.cons.inj hmore
          simp
        have hlt : more.length < (c :: cs).length := by
          have hpos := List.length_pos_iff.2 hfind
          rw [← hmore, List.length_append]
          omega
        obtain ⟨piece, pieces, hfree, hcut, hput⟩ := ih more.length hlt more rfl
        refine ⟨[], piece :: pieces, ?_, ?_, ?_⟩
        · rintro p (_ | ⟨_, hp⟩)
          · simpa using hfind
          · exact hfree p hp
        · rw [intercalate_nil_cons, ← hcut, hmore]
        · rw [Scan.replaceAfter_drop, hskip, hput, intercalate_nil_cons]
      · obtain ⟨piece, pieces, hfree, hcut, hput⟩ := ih cs.length (by simp) cs rfl
        have hcons : c :: cs = find.intercalate ((c :: piece) :: pieces) := by
          rw [hcut]
          exact (intercalate_cons_append find [c] piece pieces).symm
        refine ⟨c :: piece, pieces, ?_, hcons, ?_⟩
        · rintro p (_ | ⟨_, hp⟩)
          · -- an occurrence in the longer piece would stand at its start, and so start the text
            rw [List.infix_cons_iff]
            rintro (hpre | hin)
            · have htext : c :: piece <+: c :: cs :=
                ⟨_, (intercalate_cons_append find (c :: piece) [] pieces).symm.trans (by simpa using hcons.symm)⟩
              exact hstart (List.isPrefixOf_iff_prefix.2 (hpre.trans htext))
            · exact hfree piece List.mem_cons_self hin
          · exact hfree p (List.mem_cons_of_mem _ hp)
        · rw [hput]; exact (intercalate_cons_append put [c] piece pieces).symm

theorem replaceAll_eq_joinWith {find : String} (hfind : find ≠ "") (put text : String) :
    ∃ pieces, (∀ p ∈ pieces, ¬ find.toList <:+: p.toList) ∧ text = joinWith find pieces ∧
      replaceAll find put text = joinWith put pieces := by
  have hne : find.toList ≠ [] := by simpa using hfind
  obtain ⟨piece, pieces, hfree, hcut, hput⟩ := replaceAfter_eq_intercalate hne put.toList text.toList
  refine ⟨(piece :: pieces).map String.ofList, ?_, ?_, ?_⟩
  · intro p hp
    obtain ⟨cs, hcs, rfl⟩ := List.mem_map.1 hp
    rw [String.toList_ofList]
    exact hfree cs hcs
  · rw [joinWith_ofList, ← hcut, String.ofList_toList]
  · rw [joinWith_ofList, ← hput, replaceAll]

/-! ## Indentation -/

/-- The spaces at the start of a line. -/
def leadingSpaces (line : List Char) : Nat := (line.takeWhile (· == ' ')).length

/-- A line with `unit` for each pair of the spaces it starts with; an odd space stays. -/
def indentedChars (unit line : List Char) : List Char :=
  (List.replicate (leadingSpaces line / 2) unit).flatten ++ List.replicate (leadingSpaces line % 2) ' '
    ++ line.drop (leadingSpaces line)

/-- A line of text with `unit` for each pair of the spaces it starts with; an odd space stays. -/
def indented (unit line : String) : String := String.ofList (indentedChars unit.toList line.toList)

theorem indentedChars_pair (unit line : List Char) :
    indentedChars unit (' ' :: ' ' :: line) = unit ++ indentedChars unit line := by
  have hlead : leadingSpaces (' ' :: ' ' :: line) = leadingSpaces line + 2 := rfl
  have hhalf : (leadingSpaces line + 2) / 2 = leadingSpaces line / 2 + 1 := by omega
  have hodd : (leadingSpaces line + 2) % 2 = leadingSpaces line % 2 := by omega
  rw [indentedChars, hlead, hhalf, hodd]
  simp [indentedChars, List.replicate_succ]

/-- A line that starts with no pair of spaces stays as it is. -/
theorem indentedChars_of_no_pair (unit : List Char) {c : Char} {line : List Char}
    (h : c = ' ' → line.head? ≠ some ' ') : indentedChars unit (c :: line) = c :: line := by
  have hlead : leadingSpaces (c :: line) = if c = ' ' then 1 else 0 := by
    cases line <;> grind [leadingSpaces, List.takeWhile_cons, List.takeWhile_nil]
  rw [indentedChars, hlead]
  split_ifs with hc
  · simp [hc]
  · simp

theorem head?_splitChars {sep c : Char} {cs piece : List Char} {pieces : List (List Char)}
    (h : splitChars sep cs = piece :: pieces) (hp : piece.head? = some c) : cs.head? = some c := by
  fun_cases splitChars sep cs <;> grind [splitChars]

/-- Indentation is rewritten line by line; `start` tells whether the text begins at a line's
start. -/
theorem reindentChars_eq (unit : List Char) (start : Bool) {cs piece : List Char} {pieces : List (List Char)}
    (h : splitChars '\n' cs = piece :: pieces) :
    reindentChars unit start cs =
      ['\n'].intercalate ((if start then indentedChars unit piece else piece) :: pieces.map (indentedChars unit)) := by
  fun_induction reindentChars unit start cs generalizing piece pieces with
  | case1 rest ih =>
    obtain ⟨piece', pieces', hrest⟩ := exists_splitChars '\n' rest
    obtain ⟨rfl, rfl⟩ : ' ' :: ' ' :: piece' = piece ∧ pieces' = pieces := by
      simpa [splitChars, hrest] using h
    rw [ih hrest, if_pos rfl, if_pos rfl, indentedChars_pair, intercalate_cons_append]
  | case2 start rest ih =>
    obtain ⟨piece', pieces', hrest⟩ := exists_splitChars '\n' rest
    obtain ⟨rfl, rfl⟩ : [] = piece ∧ piece' :: pieces' = pieces := by
      simpa [splitChars, hrest] using h
    have hempty : (if start then indentedChars unit [] else []) = [] := by cases start <;> rfl
    rw [ih hrest, if_pos rfl, hempty, List.map_cons, intercalate_nil_cons]
    rfl
  | case3 start c rest hpair hfeed ih =>
    obtain ⟨piece', pieces', hrest⟩ := exists_splitChars '\n' rest
    have hc : c ≠ '\n' := hfeed
    obtain ⟨rfl, rfl⟩ : c :: piece' = piece ∧ pieces' = pieces := by
      simpa [splitChars, hrest, hc] using h
    have hline : (if start then indentedChars unit (c :: piece') else c :: piece') = c :: piece' := by
      split_ifs with hs
      · refine indentedChars_of_no_pair unit fun hspace hnext => ?_
        obtain ⟨more, hmore⟩ := List.head?_eq_some_iff.1 (head?_splitChars hrest hnext)
        exact hpair more hs hspace hmore
      · rfl
    rw [ih hrest, hline]
    exact (intercalate_cons_append ['\n'] [c] piece' _).symm
  | case4 start =>
    obtain ⟨rfl, rfl⟩ : [] = piece ∧ [] = pieces := by simpa [splitChars] using h
    cases start <;> rfl

theorem reindent_eq_joinWith (unit text : String) :
    reindent unit text = joinWith "\n" ((splitOn '\n' text).map (indented unit)) := by
  obtain ⟨piece, pieces, hsplit⟩ := exists_splitChars '\n' text.toList
  have hline : indented unit ∘ String.ofList = String.ofList ∘ indentedChars unit.toList := by
    funext line
    rw [Function.comp_apply, indented, String.toList_ofList, Function.comp_apply]
  rw [reindent, reindentChars_eq unit.toList true hsplit, if_pos rfl, ← List.map_cons, splitOn, hsplit, List.map_map,
    hline, ← List.map_map, joinWith_ofList]
  rfl

/-- Pairs of spaces in place of pairs of spaces change nothing. -/
theorem reindent_spaces (text : String) : reindent "  " text = text := by
  have hchars : ∀ start cs, reindentChars [' ', ' '] start cs = cs := by
    intro start cs
    fun_induction reindentChars [' ', ' '] start cs with
    | case1 rest ih => rw [ih]; rfl
    | case2 start rest ih => rw [ih]
    | case3 start c rest hpair hfeed ih => rw [ih]
    | case4 start => rfl
  exact (congrArg String.ofList (hchars true text.toList)).trans String.ofList_toList

end Blockwright.Text

namespace Blockwright.Emit

open Text

/-- `code` is `body` with the name at every mark, line by line with `indent` for each pair of the
spaces that a line starts with. -/
def WrittenFrom (indent name body code : String) : Prop :=
  ∃ pieces, (∀ p ∈ pieces, ¬ functionMark.toList <:+: p.toList) ∧ body = joinWith functionMark pieces ∧
    code = joinWith "\n" ((splitOn '\n' (joinWith name pieces)).map (indented indent))

theorem helperCode_eq_reindent (indent name body : String) :
    helperCode indent name body = reindent indent (replaceAll functionMark name body) := by
  unfold helperCode
  split_ifs with hi
  · rw [hi, reindent_spaces]
  · rfl

theorem writtenFrom_helperCode (indent name body : String) :
    WrittenFrom indent name body (helperCode indent name body) := by
  have hmark : functionMark ≠ "" := by decide
  obtain ⟨pieces, hfree, hbody, hput⟩ := replaceAll_eq_joinWith hmark name body
  refine ⟨pieces, hfree, hbody, ?_⟩
  rw [helperCode_eq_reindent, hput, reindent_eq_joinWith]

/-- The code of a helper under a tab for each level; an odd space stays. -/
example : helperCode "\t" "f" "function \x7bfunctionName\x7d() \x7b\n   return 1;\n\x7d" =
    "function f() \x7b\n\t return 1;\n\x7d" := by decide +kernel

end Blockwright.Emit
