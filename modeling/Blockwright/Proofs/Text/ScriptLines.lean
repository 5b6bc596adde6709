import Blockwright.Emit.Site
import Blockwright.Proofs.Text.Annotated
import Blockwright.Proofs.Text.Indentation
import Blockwright.Proofs.Text.Literals
/-!
# Lines of comments as a script reads them

The texts of comments are marked row by row, and a row ends at a line feed. A script also ends a line at
a carriage return and at the two separators of lines and paragraphs, so what stands behind one of these
in a comment is a line without a mark. Where no comment has such a character, every line is marked.
-/

namespace Blockwright

namespace Text

/-- The lines of a text as a script reads them. -/
def scriptLines (cs : List Char) : List (List Char) := cs.splitOnP isLineTerminator

/-- A line that is no code: it is empty or begins with two slashes. -/
def Inert (line : List Char) : Prop := line = [] ∨ ['/', '/'] <+: line

/-- The mark that comments are written behind. -/
def commentMark : List Char := ['/', '/', ' ']

/-! ## Lines that are led -/

section
variable {p : Char → Bool} {lead : List Char}

theorem splitOnP_lead (hlead : ∀ c ∈ lead, p c = false) (cs : List Char) :
    (lead ++ cs).splitOnP p = (cs.splitOnP p).modifyHead (lead ++ ·) := by
  induction lead with
  | nil => cases h : cs.splitOnP p <;> simp [h]
  | cons c lead ih =>
    rw [List.forall_mem_cons] at hlead
    rw [List.cons_append, List.splitOnP_cons_eq_if_modifyHead, if_neg (by simp [hlead.1]), ih hlead.2]
    cases cs.splitOnP p <;> rfl

/-- A line is made of characters of the text that end no line. -/
theorem plain_of_mem_splitOnP {cs line : List Char} (h : line ∈ cs.splitOnP p) : ∀ c ∈ line, p c = false ∧ c ∈ cs := by
  induction cs generalizing line with
  | nil =>
    obtain rfl := List.mem_singleton.1 h
    exact fun c hc => absurd hc List.not_mem_nil
  | cons d cs ih =>
    have hrest : ∀ l ∈ cs.splitOnP p, ∀ c ∈ l, p c = false ∧ c ∈ d :: cs := fun l hl c hc =>
      (ih hl c hc).imp_right (List.mem_cons_of_mem d)
    rw [List.splitOnP_cons_eq_if_modifyHead] at h
    split_ifs at h with hd
    · rcases List.mem_cons.1 h with rfl | h
      · exact fun c hc => absurd hc List.not_mem_nil
      · exact hrest line h
    · obtain ⟨first, lines, hlines⟩ := List.exists_cons_of_ne_nil (List.splitOnP_ne_nil p cs)
      rw [hlines, List.modifyHead_cons] at h
      rw [hlines] at hrest
      rcases List.mem_cons.1 h with rfl | h
      · exact List.forall_mem_cons.2 ⟨⟨Bool.eq_false_iff.2 hd, List.mem_cons_self⟩, hrest first List.mem_cons_self⟩
      · exact hrest line (List.mem_cons_of_mem _ h)

/-- What is put in front of every row stands in front of the first line of the row. The induction is on
what is left of the text, behind the part of a row that has been read. -/
theorem splitOnP_leadAfterFeeds (hfeed : p '\n' = true) (hlead : ∀ c ∈ lead, p c = false) (row cs : List Char)
    (hrow : '\n' ∉ row) : (lead ++ (row ++ leadAfterFeeds lead cs)).splitOnP p =
      ((row ++ cs).splitOn '\n').flatMap fun row => (row.splitOnP p).modifyHead (lead ++ ·) := by
  induction cs generalizing row with
  | nil =>
    have hone : row.splitOn '\n' = [row] := List.splitOnP_eq_singleton fun c hc => by
      simpa using fun h : c = '\n' => hrow (h ▸ hc)
    rw [leadAfterFeeds, List.append_nil, hone, splitOnP_lead hlead, List.flatMap_singleton]
  | cons c cs ih =>
    rw [leadAfterFeeds]
    split_ifs with hc
    · have hone : row.splitOn '\n' = [row] := List.splitOnP_eq_singleton fun d hd => by
        simpa using fun h : d = '\n' => hrow (h ▸ hd)
      have hrows : (row ++ c :: cs).splitOn '\n' = row :: cs.splitOn '\n' := by
        rw [hc, List.splitOn, List.splitOnP_append_cons _ _ (by simp), ← List.splitOn, hone]
        rfl
      rw [hrows, List.flatMap_cons, ← List.append_assoc, List.splitOnP_append_cons _ _ hfeed, splitOnP_lead hlead]
      exact congrArg _ (ih [] (by simp))
    · have hread : row ++ c :: leadAfterFeeds lead cs = (row ++ [c]) ++ leadAfterFeeds lead cs := by simp
      have hrest : row ++ c :: cs = (row ++ [c]) ++ cs := by simp
      rw [hread, hrest]
      exact ih (row ++ [c]) (by simp [hrow, Ne.symm hc])

end

/-- The lines of texts whose rows are marked. -/
def markedLines (p : Char → Bool) (texts : List String) : List (List Char) :=
  texts.flatMap fun text => (text.toList.splitOn '\n').flatMap fun row => (row.splitOnP p).modifyHead (commentMark ++ ·)

/-- A text is that of comments: its lines are the marked lines of their texts, and what is put behind it
begins a line. -/
def Marks (p : Char → Bool) (texts : List String) (s : String) : Prop :=
  ∀ rest, (s.toList ++ rest).splitOnP p = markedLines p texts ++ rest.splitOnP p

namespace Marks

variable {p : Char → Bool} {texts texts' : List String} {s s' : String}

theorem empty : Marks p [] "" := fun _ => rfl

theorem append (h : Marks p texts s) (h' : Marks p texts' s') : Marks p (texts ++ texts') (s ++ s') := by
  intro rest
  rw [String.toList_append, List.append_assoc, h, h', ← List.append_assoc]
  simp only [markedLines, List.flatMap_append]

theorem prefixLines (hfeed : p '\n' = true) (hmark : ∀ c ∈ commentMark, p c = false) (text : String) :
    Marks p [text] (Text.prefixLines (text ++ "\n") "// ") := by
  intro rest
  have hchars : (Text.prefixLines (text ++ "\n") "// ").toList =
      commentMark ++ ([] ++ leadAfterFeeds commentMark text.toList) ++ ['\n'] := by
    have hlead : ("// ").toList = commentMark := rfl
    rw [Text.prefixLines, String.toList_ofList, String.toList_append, hlead]
    exact prefixChars_feed commentMark text.toList
  rw [hchars, List.append_assoc, List.singleton_append, List.splitOnP_append_cons _ _ hfeed,
    splitOnP_leadAfterFeeds hfeed hmark [] text.toList (by simp), markedLines, List.flatMap_singleton]
  rfl

end Marks

/-! ## Texts put together -/

theorem splitOn_toList_joinWith (text : String) (texts : List String) :
    (joinWith "\n" (text :: texts)).toList.splitOn '\n' = (text :: texts).flatMap (·.toList.splitOn '\n') := by
  induction texts generalizing text with
  | nil => simp [joinWith]
  | cons next texts ih =>
    have hjoin : (joinWith "\n" (text :: next :: texts)).toList =
        text.toList ++ '\n' :: (joinWith "\n" (next :: texts)).toList := by
      rw [joinWith, String.toList_append, String.toList_append, List.append_assoc]
      rfl
    rw [hjoin, List.flatMap_cons, ← ih, List.splitOn, List.splitOnP_append_cons _ _ (by simp)]
    rfl

theorem mem_wrapFrom {limit column : Nat} {blanks word cs : List Char} {c : Char}
    (h : c ∈ wrapFrom limit column blanks word cs) : c = '\n' ∨ c ∈ blanks ∨ c ∈ word ∨ c ∈ cs := by
  fun_induction wrapFrom limit column blanks word cs <;> grind

/-- Wrapping a text puts nothing into it but line feeds. -/
theorem mem_wrap {limit : Nat} {text : String} {c : Char} (h : c ∈ (wrap limit text).toList) : c = '\n' ∨ c ∈ text.toList := by
  rw [wrap, String.toList_ofList] at h
  rcases mem_wrapFrom h with h | h | h | h
  · exact .inl h
  · cases h
  · cases h
  · exact .inr h

/-! ## Marked lines -/

theorem inert_commentMark (line : List Char) : Inert (commentMark ++ line) := .inr ⟨' ' :: line, rfl⟩

/-- Rows that are marked are inert when they are also read as lines. -/
theorem inert_of_mem_rows {texts : List String} {line : List Char} (h : line ∈ markedLines (· == '\n') texts) : Inert line := by
  simp only [markedLines, List.mem_flatMap] at h
  obtain ⟨text, -, row, hrow, hline⟩ := h
  have hone : row.splitOnP (· == '\n') = [row] := List.splitOnP_eq_singleton fun c hc =>
    (plain_of_mem_splitOnP hrow c hc).1
  rw [hone, List.modifyHead_cons, List.mem_singleton] at hline
  exact hline ▸ inert_commentMark row

/-- Behind the mark of a row the other lines of the row are as they were. -/
theorem forall_inert_markedLines (texts : List String) : (∀ line ∈ markedLines isLineTerminator texts, Inert line) ↔
    ∀ text ∈ texts, ∀ row ∈ text.toList.splitOn '\n', ∀ line ∈ (scriptLines row).tail, Inert line := by
  simp only [markedLines, List.forall_mem_flatMap]
  refine forall₂_congr fun text _ => forall₂_congr fun row _ => ?_
  rw [scriptLines]
  cases row.splitOnP isLineTerminator with
  | nil => exact Iff.rfl
  | cons line lines =>
    rw [List.modifyHead_cons, List.forall_mem_cons, List.tail_cons]
    exact and_iff_right (inert_commentMark line)

end Text

namespace Block

open Text

/-- The texts of the comments below a block that are shown with it. -/
def valueComments : List Socket → List String
  | [] => []
  | ⟨_, .value, some b⟩ :: rest => (b.blocks.map (·.head.comment)).filter (· != "") ++ valueComments rest
  | _ :: rest => valueComments rest

/-- The texts of the comments in front of a block's code: its own one, wrapped, and those of what is plugged
into its value sockets. -/
def commentTexts (b : Block) : List String :=
  if b.head.outputConnected then []
  else (if b.head.comment = "" then [] else [Text.wrap commentWidth b.head.comment]) ++ valueComments b.sockets

section
variable {p : Char → Bool}

theorem marks_ownComment (hfeed : p '\n' = true) (hmark : ∀ c ∈ commentMark, p c = false) (b : Block) :
    Marks p (if b.head.comment = "" then [] else [Text.wrap commentWidth b.head.comment]) (ownComment b) := by
  unfold ownComment
  split
  · exact .empty
  · exact .prefixLines hfeed hmark _

theorem marks_nestedComment (hfeed : p '\n' = true) (hmark : ∀ c ∈ commentMark, p c = false) (b : Block) :
    Marks p ((b.blocks.map (·.head.comment)).filter (· != "")) (nestedComment b) := by
  unfold nestedComment
  cases (b.blocks.map (·.head.comment)).filter (· != "") with
  | nil => exact .empty
  | cons text texts =>
    -- the texts are put together, and so are their rows
    have hrows : markedLines p [joinWith "\n" (text :: texts)] = markedLines p (text :: texts) := by
      rw [markedLines, List.flatMap_singleton, splitOn_toList_joinWith, List.flatMap_assoc]
      rfl
    intro rest
    rw [← hrows]
    exact Marks.prefixLines hfeed hmark _ rest

theorem marks_socketComments (hfeed : p '\n' = true) (hmark : ∀ c ∈ commentMark, p c = false) (sockets : List Socket) :
    Marks p (valueComments sockets) (socketComments sockets) := by
  induction sockets with
  | nil => exact .empty
  | cons s rest ih =>
    obtain ⟨name, _ | _, _ | c⟩ := s
    · exact ih
    · exact (marks_nestedComment hfeed hmark c).append ih
    · exact ih
    · exact ih

theorem marks_commentLines (hfeed : p '\n' = true) (hmark : ∀ c ∈ commentMark, p c = false) (b : Block) :
    Marks p b.commentTexts (commentLines b) := by
  unfold commentLines commentTexts
  split
  · exact .empty
  · exact (marks_ownComment hfeed hmark b).append (marks_socketComments hfeed hmark b.sockets)

end

theorem mem_valueComments {sockets : List Socket} {text : String} (h : text ∈ valueComments sockets) :
    ∃ c ∈ socketBlocks sockets, c.head.comment = text := by
  induction sockets with
  | nil => cases h
  | cons s rest ih =>
    obtain ⟨name, _ | _, _ | b⟩ := s
    · exact ih h
    · rcases List.mem_append.1 h with h | h
      · obtain ⟨c, hc, rfl⟩ := List.mem_map.1 (List.mem_filter.1 h).1
        exact ⟨c, List.mem_append_left _ hc, rfl⟩
      · obtain ⟨c, hc, rfl⟩ := ih h
        exact ⟨c, List.mem_append_right _ hc, rfl⟩
    · exact ih h
    · obtain ⟨c, hc, rfl⟩ := ih h
      exact ⟨c, List.mem_append_right _ hc, rfl⟩

/-- The texts of comments hold what the comments of the block and of all it holds do, but for line feeds. -/
theorem mem_commentTexts {b : Block} {text : String} (h : text ∈ b.commentTexts) {char : Char} (hchar : char ∈ text.toList) :
    char = '\n' ∨ ∃ c ∈ b.blocks, char ∈ c.head.comment.toList := by
  obtain ⟨head, sockets, next⟩ := b
  unfold commentTexts at h
  split at h
  · cases h
  · rcases List.mem_append.1 h with h | h
    · split_ifs at h
      · cases h
      · rw [List.mem_singleton] at h
        subst h
        exact (mem_wrap hchar).imp_right fun hown => ⟨_, List.mem_cons_self, hown⟩
    · obtain ⟨c, hc, rfl⟩ := mem_valueComments h
      exact .inr ⟨c, List.mem_cons_of_mem _ (List.mem_append_left _ hc), hchar⟩

/-- The comments in front of a block's code. Every row of them is empty or begins with two slashes. So does
every line that a script reads there exactly when in each text of a comment this holds of what stands behind a
line terminator other than a line feed, as it does when the comments have no such character. -/
theorem inert_commentLines (b : Block) :
    (∀ row ∈ (commentLines b).toList.splitOn '\n', Inert row) ∧
      ((∀ line ∈ scriptLines (commentLines b).toList, Inert line) ↔ ∀ text ∈ b.commentTexts,
        ∀ row ∈ text.toList.splitOn '\n', ∀ line ∈ (scriptLines row).tail, Inert line) ∧
      ((∀ c ∈ b.blocks, ∀ char ∈ c.head.comment.toList, isLineTerminator char = true → char = '\n') →
        ∀ line ∈ scriptLines (commentLines b).toList, Inert line) := by
  have hends : ∀ p : Char → Bool, p '\n' = true → (∀ c ∈ commentMark, p c = false) →
      (commentLines b).toList.splitOnP p = markedLines p b.commentTexts ++ [[]] := by
    intro p hfeed hmark
    have hlines := marks_commentLines hfeed hmark b []
    rwa [List.append_nil, List.splitOnP_nil] at hlines
  have hscript : (∀ line ∈ scriptLines (commentLines b).toList, Inert line) ↔ ∀ text ∈ b.commentTexts,
      ∀ row ∈ text.toList.splitOn '\n', ∀ line ∈ (scriptLines row).tail, Inert line := by
    rw [scriptLines, hends _ (by decide) (by simp [commentMark, isLineTerminator]), List.forall_mem_append, forall_inert_markedLines]
    exact and_iff_left (by simp [Inert])
  refine ⟨?_, hscript, fun hplain => hscript.2 fun text htext row hrow => ?_⟩
  · rw [List.splitOn, hends _ (by decide) (by simp [commentMark]), List.forall_mem_append]
    exact ⟨fun _ => inert_of_mem_rows, by simp [Inert]⟩
  · -- a row of a plain text is one line
    have hone : row.splitOnP isLineTerminator = [row] := List.splitOnP_eq_singleton fun char hchar => by
      obtain ⟨hfeed, htoList⟩ := plain_of_mem_splitOnP hrow char hchar
      rw [Bool.eq_false_iff]
      intro hterminator
      rcases mem_commentTexts htext htoList with rfl | ⟨c, hc, hcomment⟩
      · exact Bool.noConfusion hfeed
      · rw [hplain c hc char hcomment hterminator] at hfeed
        exact Bool.noConfusion hfeed
    rw [scriptLines, hone]
    exact fun line hline => absurd hline List.not_mem_nil

/-- A printing block with a comment. -/
def remarked (comment : String) : Block := ⟨{ kind := "text_print", comment }, [], none⟩

/-- What stands behind a carriage return in a comment is read as code. -/
theorem returned_comment_is_code :
    ¬ ∀ line ∈ scriptLines (commentLines (remarked "a\rb();")).toList, Inert line := by
  have hlines : scriptLines (commentLines (remarked "a\rb();")).toList =
      ["// a".toList, "b();".toList, []] := by decide +kernel
  rw [hlines]
  intro h
  rcases h "b();".toList (by simp) with hempty | hmarked
  · exact absurd hempty (by decide)
  · exact absurd hmarked (by decide)

end Block
end Blockwright
