import StylePurge.Proofs.CommentScan
import StylePurge.Proofs.RuleScan
import StylePurge.Stylesheet

/-!
Text behind a stylesheet. The comment scan can take back slashes it has kept,
also several in a row, so its output for a text is not a prefix of its output for
a longer text. Up to the last kept character that is not a slash it is, and no
rule ends in a slash, so the rules already found stay, and so does a banner.
-/

namespace StylePurge.Stylesheet

/-- The kept text in reverse without the slashes that may still be taken back. -/
def settled (css : Text) : Text := (Comment.scan css).kept.dropWhile (· == '/')

theorem settled_head (css : Text) : (settled css).head? ≠ some '/' := by
  intro slash
  have first := List.head?_dropWhile_not (· == '/') (Comment.scan css).kept
  rw [show ((Comment.scan css).kept.dropWhile (· == '/')).head? = some '/' from slash] at first
  exact absurd first (by decide)

theorem rules_settled (css : Text) :
    Splitter.rules (Comment.filter css).clean = Splitter.rules (settled css).reverse := by
  have parts : (Comment.filter css).clean =
      (settled css).reverse ++ ((Comment.scan css).kept.takeWhile (· == '/')).reverse := by
    rw [settled, ← List.reverse_append, List.takeWhile_append_dropWhile]
    rfl
  rw [parts]
  apply Splitter.rules_append_slashes
  intro character member
  have inside := List.all_eq_true.1 (List.all_takeWhile (p := (· == '/'))) character
    (List.mem_reverse.1 member)
  exact beq_iff_eq.1 inside

theorem settled_front (earlier later : Text) :
    (settled earlier).reverse <+: (Comment.filter (earlier ++ later)).clean := by
  have sound := Comment.sound_run Comment.Scan.start earlier Comment.sound_start
  have kept := Comment.kept_run (Comment.scan earlier) later sound (settled earlier)
    (List.dropWhile_suffix (· == '/')) (settled_head earlier)
  rw [Comment.scan_eq_run, ← Comment.run_append] at kept
  exact List.reverse_prefix.2 kept

/-- A later tail neither changes the rules found before it nor a banner. -/
theorem parse_append (earlier later : Text) :
    (parse earlier).rules <+: (parse (earlier ++ later)).rules ∧
      ((parse earlier).banner ≠ [] →
        (parse (earlier ++ later)).banner = (parse earlier).banner) := by
  constructor
  · change Splitter.rules (Comment.filter earlier).clean <+:
      Splitter.rules (Comment.filter (earlier ++ later)).clean
    rw [rules_settled earlier]
    exact Splitter.rules_of_prefix (settled_front earlier later)
  · intro nonempty
    change (Comment.filter (earlier ++ later)).banner = (Comment.filter earlier).banner
    obtain ⟨before, inside, after, rfl, plain, uncut⟩ :=
      (Comment.banner_cases earlier).resolve_left nonempty
    rw [List.append_assoc, Comment.banner_of_first_comment before inside _ plain uncut,
      Comment.banner_of_first_comment before inside after plain uncut]

theorem parse_append_cut_opener :
    (parse ['/', '*', 'a', '*', '/', 'b', '{', '}', '/']).banner ≠ [] ∧
      (parse ['/', '*', 'a', '*', '/', 'b', '{', '}', '/']).rules <+:
        (parse ['/', '*', 'a', '*', '/', 'b', '{', '}', '/', '*', '*', '/', 'd', '{', '}']).rules ∧
      (parse ['/', '*', 'a', '*', '/', 'b', '{', '}', '/', '*', '*', '/', 'd', '{', '}']).banner =
        (parse ['/', '*', 'a', '*', '/', 'b', '{', '}', '/']).banner := by
  have nonempty : (parse ['/', '*', 'a', '*', '/', 'b', '{', '}', '/']).banner ≠ [] := by decide
  have extended := parse_append ['/', '*', 'a', '*', '/', 'b', '{', '}', '/']
    ['*', '*', '/', 'd', '{', '}']
  exact ⟨nonempty, extended.1, extended.2 nonempty⟩

end StylePurge.Stylesheet
