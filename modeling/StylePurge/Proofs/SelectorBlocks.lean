import StylePurge.Proofs.SelectorNames
import StylePurge.Rule

/-!
What stands in a block has no part in the class names. A brace that is read outside
comments is kept, and no later comment takes back a brace or what was kept in front of it,
so the text without comments has the same front up to its first brace whatever the block
holds. Two rules that differ in their blocks only are kept by the same whitelists.
-/

namespace StylePurge

namespace Comment

/-- Outside comments a brace settles all that was kept in front of it. -/
theorem strip_block {selector : Text} (outside : (scan selector).isOpen = false) (block : Text) :
    ∃ kept, strip (selector ++ '{' :: block) = strip selector ++ '{' :: kept := by
  have sound : (scan selector).Sound := sound_run Scan.start selector sound_start
  have placed : (scan selector).Outside := sound.placed.resolve_left (by simp [outside])
  have braced : ((scan selector).step '{').kept = '{' :: (scan selector).kept := by
    rw [step_outside (scan selector) '{' placed fun _ => by decide]
  have onward : scan (selector ++ '{' :: block) = ((scan selector).step '{').run block :=
    run_append Scan.start selector ('{' :: block)
  have settled : '{' :: (scan selector).kept <:+ (scan (selector ++ '{' :: block)).kept := by
    rw [onward]
    apply kept_run ((scan selector).step '{') block (sound_step _ '{' sound)
    · exact ⟨[], by rw [braced, List.nil_append]⟩
    · exact fun slash => absurd (Option.some.inj slash) (by decide)
  obtain ⟨behind, whole⟩ := settled
  refine ⟨behind.reverse, ?_⟩
  change (scan (selector ++ '{' :: block)).kept.reverse =
    (scan selector).kept.reverse ++ '{' :: behind.reverse
  rw [← whole, List.reverse_append, List.reverse_cons, List.append_assoc,
    List.singleton_append]

end Comment

namespace Selector

variable {selector : Text}

/-- The classes of a rule are read off its selector; its block does not come into it. -/
theorem classes_of_block (outside : (Comment.scan selector).isOpen = false) (block : Text) :
    classes (selector ++ '{' :: block) =
      if isAtRule ((Comment.strip selector).takeWhile (· != '{')) then .empty
      else .ofList (classNames ((Comment.strip selector).takeWhile (· != '{'))) := by
  obtain ⟨kept, clean⟩ := Comment.strip_block outside block
  have opens : '{' ∈ Comment.strip selector ++ '{' :: kept :=
    List.mem_append_right _ List.mem_cons_self
  have front : (Comment.strip selector ++ '{' :: kept).takeWhile (· != '{') =
      (Comment.strip selector).takeWhile (· != '{') :=
    Text.take_while_stop rfl _ kept
  rw [classes, without_comments_eq, clean, selector_eq, if_pos opens, front]

end Selector

namespace Rule

/-- Whatever two blocks hold, comments and braces among it, closed or not: behind one selector
they give a rule the same classes, so that the same whitelists keep it. -/
theorem kept_whatever_the_block {selector : Text}
    (outside : (Comment.scan selector).isOpen = false) (first second : Text) :
    Selector.classes (selector ++ '{' :: first) = Selector.classes (selector ++ '{' :: second) ∧
      ∀ whitelist, isKeptBy whitelist ⟨selector ++ '{' :: first⟩ =
        isKeptBy whitelist ⟨selector ++ '{' :: second⟩ := by
  have same : classes ⟨selector ++ '{' :: first⟩ = classes ⟨selector ++ '{' :: second⟩ := by
    rw [classes, classes, Selector.classes_of_block outside, Selector.classes_of_block outside]
  refine ⟨same, fun whitelist => ?_⟩
  rw [isKeptBy, isKeptBy, isClassless, isClassless, same]

/-- A comment holds a brace and a slash is left in front of the block; one block opens a
comment that is never closed, the other has no comment at all. -/
theorem kept_whatever_the_block_unclosed :
    let selector : Text := Text.ofString "/*\x7b.g*/.a/**/.b/"
    let first : Text := Text.ofString "*/.c\x7b/*.d"
    let second : Text := Text.ofString "x:.5em\x7d"
    (Comment.scan selector).isOpen = false ∧
      (Selector.classes (selector ++ '{' :: first)).toList = [['a'], ['b']] ∧
      Selector.classes (selector ++ '{' :: first) = Selector.classes (selector ++ '{' :: second) ∧
      isKeptBy (.ofList [['c']]) ⟨selector ++ '{' :: second⟩ = false := by
  intro selector first second
  have outside : (Comment.scan selector).isOpen = false := by decide +kernel
  have settled := kept_whatever_the_block outside first second
  refine ⟨outside, by decide +kernel, settled.1, ?_⟩
  rw [← settled.2]
  decide +kernel

end Rule

end StylePurge
