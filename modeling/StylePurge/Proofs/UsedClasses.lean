import StylePurge.Proofs.MarkupNames
import StylePurge.Proofs.PurgeComposition
import StylePurge.Proofs.SelectorNames

/-!
Markup and selectors are read by different rules: a colon ends a name in markup,
and a selector escapes it, which also ends a name. So a token of an attribute
value and its escaped form in a selector begin with the same name, and a rule
that mentions a used token is kept.
-/

namespace StylePurge.Stylesheet

/-- A token as a selector writes it. -/
def escapeColons (token : Text) : Text :=
  token.flatMap fun character => if character = ':' then ['\\', ':'] else [character]

/-- The token stands behind a dot, or a dot and one backslash, and is not continued. -/
def Mentions (selector token : Text) : Prop :=
  ∃ before escape after, selector = before ++ '.' :: (escape ++ (escapeColons token ++ after)) ∧
    Selector.IsEscape escape ∧ Selector.EndsName after

theorem escape_colons_append (left right : Text) :
    escapeColons (left ++ right) = escapeColons left ++ escapeColons right := List.flatMap_append

theorem escape_colons_free {text : Text} (free : ∀ character ∈ text, character ≠ ':') :
    escapeColons text = text := by
  induction text with
  | nil => rfl
  | cons character rest induction =>
      have later := induction fun other member => free other (List.mem_cons_of_mem character member)
      rw [escapeColons, List.flatMap_cons, if_neg (free character List.mem_cons_self)]
      exact congrArg (character :: ·) later

/-- The escaped token starts with the token's first name, which ends there. -/
theorem escape_colons_eq (token after : Text) (ends : Selector.EndsName after) :
    ∃ behind, escapeColons token ++ after = Markup.firstName token ++ behind ∧
      Selector.EndsName behind := by
  have free : ∀ character ∈ Markup.firstName token, character ≠ ':' := fun character inside =>
    bne_iff_ne.1 (List.all_eq_true.1 (List.all_takeWhile (p := (· != ':'))) character inside)
  rcases Markup.token_eq token with whole | ⟨rest, parts⟩
  · have same : escapeColons token = Markup.firstName token :=
      (congrArg escapeColons whole).trans (escape_colons_free free)
    exact ⟨after, by rw [same], ends⟩
  · have same : escapeColons token =
        Markup.firstName token ++ '\\' :: ':' :: escapeColons rest := by
      refine (congrArg escapeColons parts).trans ?_
      rw [escape_colons_append, escape_colons_free free]
      rfl
    refine ⟨'\\' :: ':' :: (escapeColons rest ++ after), ?_, ?_⟩
    · rw [same, List.append_assoc]
      rfl
    · intro next head
      rw [List.head?_cons, Option.some.injEq] at head
      rw [← head]
      exact Text.mark_not_name '\\' (by decide)

theorem kept_of_named {rule : Rule} {whitelist : Whitelist} {name : Text}
    (named : rule.classes = .empty ∨ name ∈ rule.classes) (known : name ∈ whitelist) :
    rule.isKeptBy whitelist = true := by
  rw [Rule.isKeptBy, Bool.or_eq_true]
  rcases named with empty | member
  · left
    rw [Rule.isClassless, empty]
    rfl
  · right
    exact List.any_eq_true.2 ⟨name, member, OrderedSet.contains_iff.2 known⟩

theorem used_rule_kept (markup css : Text) (whitelist : Whitelist)
    (known : ∀ name ∈ Whitelist.addMarkup .empty markup, name ∈ whitelist)
    (value : Text) (found : value ∈ Markup.attributeValues markup) (token : Text)
    (member : token ∈ Text.wordsBy (· == ' ') value) (front : token.head? ≠ some ':')
    (rule : Rule) (inSheet : rule ∈ (parse css).rules)
    (mentioned : Mentions (rule.text.takeWhile (· != '{')) token) :
    rule ∈ (parse css).keptRules whitelist := by
  have used : Markup.firstName token ∈ whitelist :=
    known _ (OrderedSet.mem_union.2 (.inr (Markup.first_name_mem found member front)))
  have nonempty : Markup.firstName token ≠ [] := by
    apply Markup.first_name_ne_nil _ front
    rintro rfl
    exact nomatch (List.mem_filter.1 member).2
  obtain ⟨before, escape, after, selector, escapes, ends⟩ := mentioned
  obtain ⟨behind, written, endsName⟩ := escape_colons_eq token after ends
  have inSelector := Selector.mem_class_names before escapes nonempty
    (Markup.first_name_characters found member) endsName
  rw [← written, ← selector] at inSelector
  have plain := (parse_readable css).plain rule inSheet
  rw [keptRules, List.mem_filter]
  exact ⟨inSheet, kept_of_named (Selector.classes_of_named plain inSelector) used⟩

theorem used_rule_kept_colon :
    (⟨['.', '\\', 's', '\\', ':', 'w', ' ', 'b', '{', '}']⟩ : Rule) ∈
      (parse ['/', '*', '*', '/', '.', '\\', 's', '\\', ':', 'w', ' ', 'b', '{', '}']).keptRules
        (Whitelist.addMarkup .empty
          ['c', 'l', 'a', 's', 's', '=', '"', 'x', ' ', 's', ':', 'w', '"']) := by
  have mentioned : Mentions ['.', '\\', 's', '\\', ':', 'w', ' ', 'b'] ['s', ':', 'w'] := by
    refine ⟨[], ['\\'], [' ', 'b'], by decide, .inr rfl, ?_⟩
    intro next head
    rw [List.head?_cons, Option.some.injEq] at head
    rw [← head]
    decide +kernel
  exact used_rule_kept _ _ _ (fun _ member => member) ['x', ' ', 's', ':', 'w']
    (by decide +kernel) ['s', ':', 'w'] (by decide) (by decide) _ (by decide) mentioned

end StylePurge.Stylesheet
