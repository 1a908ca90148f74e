import StylePurge.Comment
import StylePurge.Proofs.TextPatterns

/-!
The comment scan, part by part. A text is plain up to its first opener; from
there the scan is inside a comment up to the first closer behind it; after that
it goes on as if the comment had not been there, except that the banner is
settled. The statements follow this order: plain text, an opener, the inside of
a comment, the text behind the first comment, and then whole texts.
-/

namespace StylePurge.Comment

def opener : Text := ['/', '*']

def closer : Text := ['*', '/']

def Scan.run (scan : Scan) (text : Text) : Scan := text.foldl Scan.step scan

theorem run_nil (scan : Scan) : scan.run [] = scan := rfl

theorem run_cons (scan : Scan) (character : Char) (rest : Text) :
    scan.run (character :: rest) = (scan.step character).run rest := rfl

theorem run_append (scan : Scan) (left right : Text) :
    scan.run (left ++ right) = (scan.run left).run right := List.foldl_append

theorem scan_eq_run (text : Text) : scan text = Scan.start.run text := rfl

theorem run_induction {invariant : Scan → Prop}
    (preserved : ∀ scan character, invariant scan → invariant (scan.step character))
    (scan : Scan) (text : Text) (start : invariant scan) : invariant (scan.run text) :=
  List.foldlRecOn text Scan.step start fun scan before character _ =>
    preserved scan character before

/-- Outside comments the mode only remembers whether the last kept character is
a slash. -/
def Scan.Outside (scan : Scan) : Prop := scan.mode = modeAfterComment scan.kept

theorem mode_after_cons (character : Char) (kept : Text) :
    modeAfterComment (character :: kept) = if character = '/' then .slash else .plain := by
  by_cases slash : character = '/'
  · subst slash
    rfl
  · rw [if_neg slash]
    unfold modeAfterComment
    split
    · rename_i same
      exact absurd (List.cons.inj same).1 slash
    · rfl

theorem mode_after_eq_slash_iff (kept : Text) :
    modeAfterComment kept = .slash ↔ kept.head? = some '/' := by
  cases kept with
  | nil => exact ⟨nofun, nofun⟩
  | cons character rest =>
      rw [mode_after_cons, List.head?_cons, Option.some.injEq]
      by_cases slash : character = '/'
      · simp [slash]
      · simp [slash]

theorem mode_after_cases (kept : Text) :
    modeAfterComment kept = .plain ∨ modeAfterComment kept = .slash := by
  unfold modeAfterComment
  split
  · exact .inr rfl
  · exact .inl rfl

theorem mode_after_eq_plain {kept : Text} (notSlash : kept.head? ≠ some '/') :
    modeAfterComment kept = .plain :=
  (mode_after_cases kept).resolve_right fun slash =>
    notSlash ((mode_after_eq_slash_iff kept).1 slash)

theorem step_outside (scan : Scan) (character : Char) (outside : scan.Outside)
    (apart : scan.kept.head? = some '/' → character ≠ '*') :
    scan.step character =
      { scan with
        mode := modeAfterComment (character :: scan.kept)
        kept := character :: scan.kept } := by
  have mode : scan.mode = modeAfterComment scan.kept := outside
  rw [mode_after_cons]
  rcases mode_after_cases scan.kept with plain | slash
  · rw [plain] at mode
    simp only [Scan.step, mode]
  · have other := apart ((mode_after_eq_slash_iff scan.kept).1 slash)
    rw [slash] at mode
    simp only [Scan.step, mode, if_neg other]

theorem run_plain (scan : Scan) (text : Text) (outside : scan.Outside)
    (plain : ¬opener <:+: text) (apart : scan.kept.head? = some '/' → text.head? ≠ some '*') :
    scan.run text =
      { scan with
        mode := modeAfterComment (text.reverse ++ scan.kept)
        kept := text.reverse ++ scan.kept } := by
  induction text generalizing scan with
  | nil =>
      have mode : scan.mode = modeAfterComment scan.kept := outside
      rw [run_nil, List.reverse_nil, List.nil_append, ← mode]
  | cons character rest induction =>
      have inRest : ¬opener <:+: rest := fun found => plain (Text.pair_infix_cons.2 (.inr found))
      have kept := step_outside scan character outside fun slash star =>
        apart slash (by rw [star, List.head?_cons])
      have nextOutside : (scan.step character).Outside := by
        rw [kept]
        rfl
      have nextApart : (scan.step character).kept.head? = some '/' → rest.head? ≠ some '*' := by
        rw [kept, List.head?_cons, Option.some.injEq]
        intro slash star
        exact plain (Text.pair_infix_cons.2 (.inl ⟨slash.symm, star⟩))
      rw [run_cons, induction (scan.step character) nextOutside inRest nextApart, kept,
        List.reverse_cons, List.append_assoc, List.singleton_append]

/-- An opener leaves no trace in the kept text. -/
theorem run_opener (scan : Scan) (outside : scan.Outside) :
    scan.run opener = { scan with mode := .inside, capturing := !scan.closedOnce } := by
  have slashKept := step_outside scan '/' outside fun _ => by decide
  rw [opener, run_cons, slashKept, run_cons, run_nil]
  rfl

/-- A star read inside a comment is held back until it is known not to close it. -/
def Scan.held (scan : Scan) : Text := if scan.mode = .star then ['*'] else []

theorem is_open_iff (scan : Scan) :
    scan.isOpen = true ↔ scan.mode = .inside ∨ scan.mode = .star := by
  rw [Scan.isOpen, Bool.or_eq_true, beq_iff_eq, beq_iff_eq]

theorem held_of_star (scan : Scan) (mode : scan.mode = .star) : scan.held = ['*'] := if_pos mode

theorem held_of_inside (scan : Scan) (mode : scan.mode = .inside) : scan.held = [] := by
  rw [Scan.held, mode]
  rfl

theorem capture_nil (scan : Scan) : scan.capture [] = scan.banner := by
  unfold Scan.capture
  split
  · rfl
  · rfl

theorem capture_capture (scan : Scan) (mode : Mode) (later earlier : Text) :
    { scan with mode := mode, banner := scan.capture earlier }.capture later =
      scan.capture (later ++ earlier) := by
  unfold Scan.capture
  by_cases capturing : scan.capturing = true
  · simp only [if_pos capturing, List.append_assoc]
  · simp only [if_neg capturing]

/-- Inside a comment a character that does not close it goes to the banner,
except that a star waits for the next character. -/
theorem step_open (scan : Scan) (character : Char) (isOpen : scan.isOpen = true)
    (goesOn : scan.mode = .star → character ≠ '/') :
    scan.step character =
      { scan with
        mode := if character = '*' then .star else .inside
        banner :=
          scan.capture (if character = '*' then scan.held else character :: scan.held) } := by
  rcases (is_open_iff scan).1 isOpen with inside | star
  · by_cases isStar : character = '*'
    · simp only [Scan.step, inside, if_pos isStar, held_of_inside scan inside, capture_nil]
    · simp only [Scan.step, inside, if_neg isStar, held_of_inside scan inside]
  · have notSlash := goesOn star
    by_cases isStar : character = '*'
    · simp only [Scan.step, star, if_neg notSlash, if_pos isStar, held_of_star scan star]
    · simp only [Scan.step, star, if_neg notSlash, if_neg isStar, held_of_star scan star]

theorem is_open_step (scan : Scan) (character : Char) (isOpen : scan.isOpen = true)
    (goesOn : scan.mode = .star → character ≠ '/') : (scan.step character).isOpen = true := by
  rw [step_open scan character isOpen goesOn, is_open_iff]
  by_cases star : character = '*'
  · exact .inr (if_pos star)
  · exact .inl (if_neg star)

theorem held_step (scan : Scan) (character : Char) (isOpen : scan.isOpen = true)
    (goesOn : scan.mode = .star → character ≠ '/') :
    (scan.step character).held = if character = '*' then ['*'] else [] := by
  rw [step_open scan character isOpen goesOn]
  by_cases star : character = '*'
  · simp only [Scan.held, if_pos star, if_true]
  · simp only [Scan.held, if_neg star, reduceCtorEq, if_false]

section Inside

variable {scan : Scan} {character : Char} {rest : Text}

theorem goes_on_of_uncut (uncut : ¬closer <:+: scan.held ++ character :: rest) :
    scan.mode = .star → character ≠ '/' := by
  intro star slash
  apply uncut
  rw [held_of_star scan star, slash]
  exact Text.pair_infix_cons.2 (.inl ⟨rfl, rfl⟩)

theorem uncut_step (isOpen : scan.isOpen = true)
    (uncut : ¬closer <:+: scan.held ++ character :: rest) :
    ¬closer <:+: (scan.step character).held ++ rest := by
  intro found
  apply uncut
  apply found.trans
  rw [held_step scan character isOpen (goes_on_of_uncut uncut)]
  by_cases star : character = '*'
  · rw [if_pos star, star, List.singleton_append]
    exact (List.suffix_append scan.held ('*' :: rest)).isInfix
  · rw [if_neg star, List.nil_append, List.append_cons]
    exact (List.suffix_append (scan.held ++ [character]) rest).isInfix

end Inside

theorem run_closing (scan : Scan) (inside : Text) (isOpen : scan.isOpen = true)
    (uncut : ¬closer <:+: scan.held ++ inside) :
    scan.run (inside ++ closer) =
      { scan with
        mode := modeAfterComment scan.kept
        banner := scan.capture (inside.reverse ++ scan.held)
        closedOnce := true
        capturing := false } := by
  induction inside generalizing scan with
  | nil =>
      have star := step_open scan '*' isOpen fun _ => by decide
      rw [List.nil_append, closer, run_cons, star, run_cons, run_nil]
      rfl
  | cons character rest induction =>
      have goesOn := goes_on_of_uncut uncut
      have next := step_open scan character isOpen goesOn
      have read : (scan.step character).capture (rest.reverse ++ (scan.step character).held) =
          scan.capture ((character :: rest).reverse ++ scan.held) := by
        rw [held_step scan character isOpen goesOn, next, capture_capture]
        apply congrArg scan.capture
        rw [List.reverse_cons, List.append_assoc, List.append_assoc]
        by_cases star : character = '*'
        · rw [if_pos star, if_pos star, star]
        · rw [if_neg star, if_neg star, List.nil_append, List.singleton_append]
      rw [List.cons_append, run_cons, induction (scan.step character)
        (is_open_step scan character isOpen goesOn) (uncut_step isOpen uncut), read, next]

theorem run_unclosed (scan : Scan) (inside : Text) (isOpen : scan.isOpen = true)
    (uncut : ¬closer <:+: scan.held ++ inside) :
    (scan.run inside).isOpen = true ∧ (scan.run inside).capturing = scan.capturing ∧
      (scan.run inside).kept = scan.kept := by
  induction inside generalizing scan with
  | nil => exact ⟨isOpen, rfl, rfl⟩
  | cons character rest induction =>
      have goesOn := goes_on_of_uncut uncut
      have next := step_open scan character isOpen goesOn
      obtain ⟨stillOpen, capturing, kept⟩ := induction (scan.step character)
        (is_open_step scan character isOpen goesOn) (uncut_step isOpen uncut)
      refine ⟨stillOpen, capturing.trans ?_, kept.trans ?_⟩
      · rw [next]
      · rw [next]

/-- A whole comment only changes the banner, and that only if it is the first. -/
theorem run_comment (scan : Scan) (inside : Text) (outside : scan.Outside)
    (uncut : ¬closer <:+: inside) :
    scan.run (opener ++ inside ++ closer) =
      { scan with
        mode := modeAfterComment scan.kept
        banner := if scan.closedOnce then scan.banner else inside.reverse ++ scan.banner
        closedOnce := true
        capturing := false } := by
  have entered := run_opener scan outside
  have isOpen : (scan.run opener).isOpen = true := by
    rw [entered]
    rfl
  have nothingHeld : (scan.run opener).held = [] := by
    rw [entered]
    rfl
  rw [List.append_assoc, run_append, run_closing (scan.run opener) inside isOpen
    (by rw [nothingHeld]; exact uncut), nothingHeld, List.append_nil, entered]
  cases closed : scan.closedOnce with
  | false => rfl
  | true => rfl

/-- What a character can do to a scan that is inside a comment or properly
outside of one. -/
inductive Scan.Move (scan : Scan) (character : Char) : Scan → Prop where
  | keep (outside : scan.Outside) (apart : scan.kept.head? = some '/' → character ≠ '*') :
      Move scan character
        { scan with
          mode := modeAfterComment (character :: scan.kept)
          kept := character :: scan.kept }
  | enter (kept : Text) (slash : scan.kept = '/' :: kept) (star : character = '*') :
      Move scan character
        { scan with mode := .inside, kept := kept, capturing := !scan.closedOnce }
  | read (isOpen : scan.isOpen = true) (mode : Mode) (stays : mode = .inside ∨ mode = .star)
      (released : Text) :
      Move scan character { scan with mode := mode, banner := scan.capture released }
  | leave (star : scan.mode = .star) (slash : character = '/') :
      Move scan character
        { scan with
          mode := modeAfterComment scan.kept
          closedOnce := true
          capturing := false }

/-- The invariant of the scan: its mode agrees with the kept text, and the kept
text never holds an opener. -/
structure Scan.Sound (scan : Scan) : Prop where
  placed : scan.isOpen = true ∨ scan.Outside
  clean : ¬opener <:+: scan.kept.reverse

theorem step_move (scan : Scan) (character : Char) (placed : scan.isOpen = true ∨ scan.Outside) :
    scan.Move character (scan.step character) := by
  rcases placed with isOpen | outside
  · by_cases closes : scan.mode = .star ∧ character = '/'
    · obtain ⟨star, slash⟩ := closes
      have next : scan.step character =
          { scan with
            mode := modeAfterComment scan.kept
            closedOnce := true
            capturing := false } := by
        simp only [Scan.step, star, if_pos slash]
      rw [next]
      exact .leave star slash
    · have goesOn : scan.mode = .star → character ≠ '/' := fun star slash => closes ⟨star, slash⟩
      rw [step_open scan character isOpen goesOn]
      apply Scan.Move.read isOpen
      by_cases star : character = '*'
      · exact .inr (if_pos star)
      · exact .inl (if_neg star)
  · by_cases opens : scan.kept.head? = some '/' ∧ character = '*'
    · obtain ⟨slash, star⟩ := opens
      obtain ⟨kept, shape⟩ := List.head?_eq_some_iff.1 slash
      have mode : scan.mode = .slash := outside.trans ((mode_after_eq_slash_iff scan.kept).2 slash)
      have next : scan.step character =
          { scan with mode := .inside, kept := kept, capturing := !scan.closedOnce } := by
        simp only [Scan.step, mode, if_pos star, shape, List.tail_cons]
      rw [next]
      exact .enter kept shape star
    · have apart : scan.kept.head? = some '/' → character ≠ '*' :=
        fun slash star => opens ⟨slash, star⟩
      rw [step_outside scan character outside apart]
      exact .keep outside apart

theorem sound_start : Scan.start.Sound := ⟨.inr rfl, Text.pair_not_infix_nil⟩

theorem sound_step (scan : Scan) (character : Char) (sound : scan.Sound) :
    (scan.step character).Sound := by
  have move := step_move scan character sound.placed
  generalize scan.step character = next at move
  cases move with
  | keep outside apart =>
      refine ⟨.inr rfl, ?_⟩
      rw [List.reverse_cons, opener, Text.pair_infix_concat, List.getLast?_reverse]
      rintro (found | ⟨slash, star⟩)
      · exact sound.clean found
      · exact apart slash star.symm
  | enter kept slash star =>
      refine ⟨.inl rfl, fun found => sound.clean ?_⟩
      rw [slash, List.reverse_cons]
      exact found.trans (List.prefix_append kept.reverse ['/']).isInfix
  | read isOpen mode stays released =>
      exact ⟨.inl ((is_open_iff _).2 stays), sound.clean⟩
  | leave star slash => exact ⟨.inr rfl, sound.clean⟩

theorem sound_run (scan : Scan) (text : Text) (sound : scan.Sound) : (scan.run text).Sound :=
  run_induction sound_step scan text sound

theorem clean_opener_free (text : Text) : ¬opener <:+: (filter text).clean :=
  (sound_run Scan.start text sound_start).clean

/-- The first comment is closed, so the banner is settled. -/
structure Scan.Sealed (scan : Scan) (found : Text) : Prop where
  sound : scan.Sound
  closed : scan.closedOnce = true
  still : scan.capturing = false
  banner : scan.banner = found

theorem sealed_step (found : Text) (scan : Scan) (character : Char) (isSealed : scan.Sealed found) :
    (scan.step character).Sealed found := by
  have sound := sound_step scan character isSealed.sound
  have move := step_move scan character isSealed.sound.placed
  generalize scan.step character = next at move sound
  cases move with
  | keep outside apart => exact ⟨sound, isSealed.closed, isSealed.still, isSealed.banner⟩
  | enter kept slash star =>
      refine ⟨sound, isSealed.closed, ?_, isSealed.banner⟩
      rw [isSealed.closed]
      rfl
  | read isOpen mode stays released =>
      refine ⟨sound, isSealed.closed, isSealed.still, ?_⟩
      rw [Scan.capture, isSealed.still]
      exact isSealed.banner
  | leave star slash => exact ⟨sound, rfl, rfl, isSealed.banner⟩

theorem sealed_run (found : Text) (scan : Scan) (text : Text) (isSealed : scan.Sealed found) :
    (scan.run text).Sealed found :=
  run_induction (sealed_step found) scan text isSealed

/-- Kept text up to a character that is not a slash is never taken back. -/
theorem kept_step (scan : Scan) (character : Char) (sound : scan.Sound) (settled : Text)
    (suffix : settled <:+ scan.kept) (notSlash : settled.head? ≠ some '/') :
    settled <:+ (scan.step character).kept := by
  have move := step_move scan character sound.placed
  generalize scan.step character = next at move
  cases move with
  | keep outside apart => exact suffix.trans (List.suffix_cons character scan.kept)
  | enter kept slash star =>
      rw [slash, List.suffix_cons_iff] at suffix
      apply suffix.resolve_left
      intro whole
      exact notSlash (by rw [whole, List.head?_cons])
  | read isOpen mode stays released => exact suffix
  | leave star slash => exact suffix

theorem kept_run (scan : Scan) (text : Text) (sound : scan.Sound) (settled : Text)
    (suffix : settled <:+ scan.kept) (notSlash : settled.head? ≠ some '/') :
    settled <:+ (scan.run text).kept := by
  have preserved (scan : Scan) (character : Char) (before : scan.Sound ∧ settled <:+ scan.kept) :
      (scan.step character).Sound ∧ settled <:+ (scan.step character).kept :=
    ⟨sound_step scan character before.1,
      kept_step scan character before.1 settled before.2 notSlash⟩
  exact (run_induction preserved scan text ⟨sound, suffix⟩).2

theorem finish_banner (scan : Scan) (still : scan.capturing = false) :
    scan.finish.banner = Text.trim scan.banner.reverse := by
  rw [Scan.finish, still, Bool.and_false]
  rfl

theorem filter_plain (text : Text) (plain : ¬opener <:+: text) : filter text = ⟨text, []⟩ := by
  have kept := run_plain Scan.start text rfl plain nofun
  rw [filter, scan_eq_run, kept, Scan.finish]
  simp only [Scan.start, List.append_nil, List.reverse_reverse, Bool.and_false]
  rfl

theorem banner_of_first_comment (before inside after : Text) (plain : ¬opener <:+: before)
    (uncut : ¬closer <:+: inside) :
    (filter (before ++ (opener ++ inside ++ closer) ++ after)).banner = Text.trim inside := by
  have front := run_plain Scan.start before rfl plain nofun
  have outside : (Scan.start.run before).Outside := by
    rw [front]
    rfl
  have comment := run_comment (Scan.start.run before) inside outside uncut
  rw [← run_append] at comment
  have sound := sound_run Scan.start (before ++ (opener ++ inside ++ closer)) sound_start
  have isSealed : (Scan.start.run (before ++ (opener ++ inside ++ closer))).Sealed
      inside.reverse := by
    refine ⟨sound, by rw [comment], by rw [comment], ?_⟩
    rw [comment, front]
    exact List.append_nil inside.reverse
  have later := sealed_run inside.reverse _ after isSealed
  rw [filter, scan_eq_run, run_append, finish_banner _ later.still, later.banner,
    List.reverse_reverse]

theorem banner_of_unclosed_comment (before inside : Text) (plain : ¬opener <:+: before)
    (uncut : ¬closer <:+: inside) : (filter (before ++ (opener ++ inside))).banner = [] := by
  have front := run_plain Scan.start before rfl plain nofun
  have outside : (Scan.start.run before).Outside := by
    rw [front]
    rfl
  have entered := run_opener (Scan.start.run before) outside
  rw [← run_append] at entered
  obtain ⟨isOpen, capturing, _⟩ := run_unclosed (Scan.start.run (before ++ opener)) inside
    (by rw [entered]; rfl) (by rw [entered]; exact uncut)
  have first : (Scan.start.run (before ++ opener)).capturing = true := by
    rw [entered, front]
    rfl
  rw [filter, scan_eq_run, ← List.append_assoc, run_append, Scan.finish, isOpen, capturing, first]
  rfl

/-- A banner always comes from the first comment of the text. -/
theorem banner_cases (text : Text) :
    (filter text).banner = [] ∨
      ∃ before inside after, text = before ++ (opener ++ inside ++ closer) ++ after ∧
        ¬opener <:+: before ∧ ¬closer <:+: inside := by
  by_cases opens : opener <:+: text
  · obtain ⟨before, behind, rfl, plain⟩ := Text.exists_first_pair opens
    by_cases closes : closer <:+: behind
    · obtain ⟨inside, after, rfl, uncut⟩ := Text.exists_first_pair closes
      refine .inr ⟨before, inside, after, ?_, plain, uncut⟩
      simp only [opener, closer, List.append_assoc, List.cons_append, List.nil_append]
    · exact .inl (banner_of_unclosed_comment before behind plain closes)
  · rw [filter_plain text opens]
    exact .inl rfl

end StylePurge.Comment
