import StylePurge.Proofs.CommentScan
import StylePurge.Proofs.TextPieces

/-!
The banner of a text. It is settled when the first comment closes: no text behind that
comment has any part in it, not even one that the removal of the comment joins to a new
opener. A first comment that never closes leaves no banner.
-/

namespace StylePurge.Comment

/-- The comment at the first opener of the text is closed, and `inside` is all of it that
stands in front of the first closer. -/
def FirstComment (text inside : Text) : Prop :=
  ∃ before after, text = before ++ (opener ++ inside ++ closer) ++ after ∧
    ¬opener <:+: before ∧ ¬closer <:+: inside

variable {text inside : Text}

theorem first_comment_append (first : FirstComment text inside) (later : Text) :
    FirstComment (text ++ later) inside := by
  obtain ⟨before, after, rfl, plain, uncut⟩ := first
  exact ⟨before, after ++ later, List.append_assoc _ after later, plain, uncut⟩

theorem banner_of_first (first : FirstComment text inside) :
    (filter text).banner = Text.trim inside := by
  obtain ⟨before, after, rfl, plain, uncut⟩ := first
  exact banner_of_first_comment before inside after plain uncut

theorem filter_banner (text : Text) :
    ¬closer <:+: (filter text).banner ∧
      Text.trim (filter text).banner = (filter text).banner := by
  rcases banner_cases text with empty | ⟨before, inside, after, rfl, plain, uncut⟩
  · rw [empty]
    exact ⟨Text.pair_not_infix_nil, rfl⟩
  · rw [banner_of_first_comment before inside after plain uncut]
    exact ⟨fun found => uncut (found.trans (Text.trim_by_slice Text.isBlank inside)),
      Text.trim_by_trim_by Text.isBlank inside⟩

/-- The banner is the trimmed inside of the first comment, and it stays so whatever follows
that comment; without a first comment that closes there is none. It never closes the comment
it is written back in. -/
theorem banner_settled (text : Text) :
    (∀ inside, FirstComment text inside →
        (filter text).banner = Text.trim inside ∧
          ∀ later, (filter (text ++ later)).banner = Text.trim inside) ∧
      ((¬∃ inside, FirstComment text inside) → (filter text).banner = []) ∧
      ¬closer <:+: (filter text).banner := by
  refine ⟨fun inside first => ⟨banner_of_first first, fun later => ?_⟩, fun none => ?_,
    (filter_banner text).1⟩
  · exact banner_of_first (first_comment_append first later)
  · apply (banner_cases text).resolve_right
    rintro ⟨before, inside, after, comment⟩
    exact none ⟨inside, before, after, comment⟩

/-- The slash in front of the first comment and the star behind it are another opener. -/
theorem banner_settled_joined_opener :
    let text := Text.ofString "//* *x**/"
    FirstComment text [' ', '*', 'x', '*'] ∧ (filter text).banner = ['*', 'x', '*'] ∧
      (filter (text ++ Text.ofString "*y*/z/**")).banner = ['*', 'x', '*'] ∧
      strip (text ++ Text.ofString "*y*/z/**") = ['z'] := by
  intro text
  have first : FirstComment text [' ', '*', 'x', '*'] :=
    ⟨['/'], [], by decide, by decide, by decide⟩
  have settled := (banner_settled text).1 _ first
  exact ⟨first, settled.1, settled.2 _, by decide⟩

end StylePurge.Comment
