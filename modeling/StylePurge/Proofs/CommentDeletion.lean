import Mathlib.Data.List.Induction
import StylePurge.Proofs.CommentScan

/-!
What the comment scan leaves of a text. The scan is one pass that takes a slash
back when it turns out to open a comment. The same text comes out when the
leftmost comment is deleted again and again until no opener is left, although a
deletion can bring a slash and a star together. What is left therefore holds no
opener, and deleting comments from it changes nothing.
-/

namespace StylePurge.Comment

/-- Deletes the leftmost comment until there is none. A comment that is not
closed takes the rest of the text with it. -/
def normalForm (text : Text) : Text :=
  match _ : Text.cutAtPair? '/' '*' text with
  | none => text
  | some (before, behind) =>
      match _ : Text.cutAtPair? '*' '/' behind with
      | none => before
      | some (_, after) => normalForm (before ++ after)
termination_by text.length
decreasing_by
  rename_i opens inside closes
  have outer := congrArg List.length (Text.cut_at_pair_some opens).1
  have inner := congrArg List.length (Text.cut_at_pair_some closes).1
  simp only [List.length_append, List.length_cons] at outer inner ⊢
  omega

/-- Scans that differ at most in what they know about the banner. -/
structure Scan.Alike (left right : Scan) : Prop where
  mode : left.mode = right.mode
  kept : left.kept = right.kept

theorem alike_step (left right : Scan) (character : Char) (alike : left.Alike right) :
    (left.step character).Alike (right.step character) := by
  obtain ⟨mode, kept⟩ := alike
  unfold Scan.step
  rw [mode, kept]
  cases right.mode with
  | plain => exact ⟨rfl, rfl⟩
  | slash =>
      dsimp only
      split
      · exact ⟨rfl, rfl⟩
      · exact ⟨rfl, rfl⟩
  | inside =>
      dsimp only
      split
      · exact ⟨rfl, rfl⟩
      · exact ⟨rfl, rfl⟩
  | star =>
      dsimp only
      split
      · exact ⟨rfl, rfl⟩
      · split
        · exact ⟨rfl, rfl⟩
        · exact ⟨rfl, rfl⟩

theorem alike_run (left right : Scan) (text : Text) (alike : left.Alike right) :
    (left.run text).Alike (right.run text) := by
  induction text generalizing left right with
  | nil => exact alike
  | cons character rest induction =>
      exact induction (left.step character) (right.step character)
        (alike_step left right character alike)

section Deletion

variable {before inside : Text}

theorem outside_run_plain (plain : ¬opener <:+: before) : (Scan.start.run before).Outside := by
  rw [run_plain Scan.start before rfl plain nofun]
  rfl

theorem kept_run_plain (plain : ¬opener <:+: before) :
    (Scan.start.run before).kept = before.reverse := by
  rw [run_plain Scan.start before rfl plain nofun]
  exact List.append_nil before.reverse

theorem clean_of_unclosed_comment (plain : ¬opener <:+: before) (uncut : ¬closer <:+: inside) :
    (filter (before ++ (opener ++ inside))).clean = before := by
  have entered := run_opener (Scan.start.run before) (outside_run_plain plain)
  obtain ⟨_, _, kept⟩ := run_unclosed ((Scan.start.run before).run opener) inside
    (by rw [entered]; rfl) (by rw [entered]; exact uncut)
  have whole : (scan (before ++ (opener ++ inside))).kept = before.reverse := by
    rw [scan_eq_run, run_append, run_append, kept, entered, kept_run_plain plain]
  rw [filter, Scan.finish, whole, List.reverse_reverse]

/-- Behind a closed comment the scan is where it was in front of it. -/
theorem clean_of_comment (after : Text) (plain : ¬opener <:+: before)
    (uncut : ¬closer <:+: inside) :
    (filter (before ++ (opener ++ inside ++ closer) ++ after)).clean =
      (filter (before ++ after)).clean := by
  have outside := outside_run_plain plain
  have comment := run_comment (Scan.start.run before) inside outside uncut
  have alike : (Scan.start.run (before ++ (opener ++ inside ++ closer))).Alike
      (Scan.start.run before) := by
    rw [run_append, comment]
    exact ⟨outside.symm, rfl⟩
  have later := alike_run _ _ after alike
  rw [← run_append, ← run_append] at later
  exact congrArg List.reverse later.kept

end Deletion

/-- One pass over a text keeps what deleting the leftmost comment to the end keeps. -/
theorem clean_eq_normal_form (text : Text) : (filter text).clean = normalForm text := by
  fun_induction normalForm text with
  | case1 text opens => rw [filter_plain text (Text.cut_at_pair_none opens)]
  | case2 text before behind opens closes =>
      obtain ⟨rfl, plain⟩ := Text.cut_at_pair_some opens
      exact clean_of_unclosed_comment plain (Text.cut_at_pair_none closes)
  | case3 text before behind opens inside after closes induction =>
      obtain ⟨rfl, plain⟩ := Text.cut_at_pair_some opens
      obtain ⟨rfl, uncut⟩ := Text.cut_at_pair_some closes
      rw [← induction, ← clean_of_comment after plain uncut]
      simp only [opener, closer, List.append_assoc, List.cons_append, List.nil_append]

/-- The slash in front of the comment and the star behind it open another one. -/
example : strip ['a', '/', '/', '*', 'x', '*', '/', '*', 'b'] = ['a'] := by decide

theorem kept_sublist_step (scan : Scan) (character : Char) (seen : Text) (sound : scan.Sound)
    (sublist : scan.kept.reverse.Sublist seen) :
    (scan.step character).kept.reverse.Sublist (seen ++ [character]) := by
  have move := step_move scan character sound.placed
  generalize scan.step character = next at move
  cases move with
  | keep outside apart =>
      rw [List.reverse_cons]
      exact sublist.append (List.Sublist.refl [character])
  | enter kept slash star =>
      rw [slash, List.reverse_cons] at sublist
      have shorter := (List.sublist_append_left kept.reverse ['/']).trans sublist
      exact shorter.trans (List.sublist_append_left seen [character])
  | read isOpen mode stays released =>
      exact sublist.trans (List.sublist_append_left seen [character])
  | leave star slash => exact sublist.trans (List.sublist_append_left seen [character])

theorem clean_sublist (text : Text) : (filter text).clean.Sublist text := by
  induction text using List.reverseRecOn with
  | nil => exact List.nil_sublist []
  | append_singleton text character induction =>
      have sound := sound_run Scan.start text sound_start
      have next : scan (text ++ [character]) = (scan text).step character :=
        run_append Scan.start text [character]
      rw [filter, next]
      exact kept_sublist_step (scan text) character text sound induction

/-- What is left of a text is a subsequence without openers. The texts that stay
as they are, are those without openers, and they have no banner. -/
theorem filter_fixed_points (text : Text) :
    ¬opener <:+: (filter text).clean ∧ (filter text).clean.Sublist text ∧
      ((filter text).clean = text ↔ ¬opener <:+: text) ∧
      (filter text = ⟨text, []⟩ ↔ ¬opener <:+: text) ∧
      filter (filter text).clean = ⟨(filter text).clean, []⟩ := by
  have free := clean_opener_free text
  have plain_of_fixed : (filter text).clean = text → ¬opener <:+: text := by
    intro fixed
    rwa [fixed] at free
  refine ⟨free, clean_sublist text, ⟨plain_of_fixed, ?_⟩, ⟨?_, filter_plain text⟩,
    filter_plain (filter text).clean free⟩
  · intro plain
    rw [filter_plain text plain]
  · intro fixed
    exact plain_of_fixed (congrArg Filtered.clean fixed)

end StylePurge.Comment
