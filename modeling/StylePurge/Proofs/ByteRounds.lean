import StylePurge.Proofs.BytePositions
import StylePurge.Proofs.CommentCode

/-!
One round of the loop over the bytes, beside the scan of the characters. Wherever the loop
stands, it knows what the scan knows of the characters it has begun to read. A round at the
start of a character does what the character does to the scan, or both characters of a
comment delimiter, and a round inside of a character does nothing.
-/

namespace StylePurge.Splitter

open Text (Bytes Boundary byteOf byteSize encode leadingByte)

section Agreement

/-- Where pending text starts; nothing is pending as long as no rule has started. -/
inductive Starts (front : Text) : Text → Option Nat → Prop where
  | idle : Starts front [] none
  | begun {before pending : Text} (shape : front = before ++ pending.reverse)
      (nonempty : pending ≠ []) : Starts front pending (some (byteSize before))

/-- The loop knows of the front of a text what the scan knows. A delimiter is taken as a
whole, so none is cut in two here. -/
structure Loop.Agrees (loop : Loop) (scan : Scan) (front behind : Text) : Prop where
  depth : loop.depth = scan.depth
  rules : loop.rules = scan.rules.reverse
  start : Starts front scan.pending loop.start
  comment : loop.inComment = false ↔ scan.Outside
  noOpener : scan.mode = .slash → behind.head? ≠ some '*'
  noCloser : scan.mode = .star → behind.head? ≠ some '/'

/-- The loop stands between two characters, or inside a character that counts as read. -/
inductive Loop.Follows (loop : Loop) (css : Text) : Prop where
  | between {front behind : Text} (shape : css = front ++ behind)
      (index : loop.index = byteSize front) (agrees : loop.Agrees (scan front) front behind)
  | inside {front behind : Text} {character : Char} (shape : css = front ++ character :: behind)
      (above : byteSize front < loop.index) (below : loop.index < byteSize (front ++ [character]))
      (begun : loop.start.isSome = true)
      (agrees : loop.Agrees (scan (front ++ [character])) (front ++ [character]) behind)

variable {front behind pending css : Text} {character : Char} {loop : Loop} {start : Option Nat}

theorem Loop.Agrees.forward {scan : Scan} (agrees : loop.Agrees scan front behind) (width : Nat) :
    (loop.forward width).Agrees scan front behind :=
  ⟨agrees.depth, agrees.rules, agrees.start, agrees.comment, agrees.noOpener, agrees.noCloser⟩

theorem start_of_pending (starts : Starts front pending start) (nonempty : pending ≠ []) :
    start.isSome = true := by
  cases starts with
  | idle => exact absurd rfl nonempty
  | begun shape nonempty => rfl

theorem push_pending (character : Char) (nonempty : pending ≠ []) :
    push character pending = character :: pending := by
  rw [push, List.isEmpty_eq_false_iff.2 nonempty, Bool.false_and]
  rfl

/-- The byte of the next character starts a rule where the character does. -/
theorem begin_starts (index : loop.index = byteSize front)
    (starts : Starts front pending loop.start) (character : Char) :
    Starts (front ++ [character]) (push character pending)
      (loop.begin (leadingByte character)).start := by
  rw [Loop.begin, Text.is_layout_leading_byte]
  generalize known : loop.start = start at starts
  cases starts with
  | idle =>
      cases layout : Text.isLayout character with
      | true =>
          have passed : push character [] = [] := by rw [push, layout]; rfl
          rw [passed, if_neg (by simp), known]
          exact .idle
      | false =>
          rw [push_of_not_layout layout, if_pos (by simp)]
          exact index ▸ .begun rfl (List.cons_ne_nil character [])
  | begun shape nonempty =>
      rw [push_pending character nonempty]
      simp only [Option.isNone_some, Bool.false_and, Bool.false_eq_true, if_false, known]
      refine .begun ?_ (List.cons_ne_nil character _)
      rw [shape, List.reverse_cons, List.append_assoc]

end Agreement

section Reading

variable {front behind : Text} {character mark : Char} {loop : Loop} {bytes : Bytes}

theorem size_of_ascii (ascii : character.toNat < 0x80) : byteSize [character] = 1 := by
  rw [byteSize, byteSize, Text.utf8_size_eq, if_pos ascii]

/-- Behind an ASCII character the next byte tells the next character, if that is ASCII. -/
theorem next_byte (ascii : character.toNat < 0x80) (markAscii : mark.toNat < 0x80) :
    ((encode (front ++ character :: behind))[byteSize front + 1]? == some (byteOf mark)) =
      decide (behind.head? = some mark) := by
  have further : byteSize front + 1 = byteSize (front ++ [character]) := by
    rw [Text.byte_size_append, size_of_ascii ascii]
  rw [further, List.append_cons, Text.byte_at_front]
  cases behind with
  | nil => rfl
  | cons next rest =>
      rw [Bool.eq_iff_iff, beq_iff_eq, decide_eq_true_iff]
      simp [Text.leading_byte_eq_iff markAscii]

theorem at_pair (first second : Char) (firstAscii : first.toNat < 0x80)
    (secondAscii : second.toNat < 0x80) (index : loop.index = byteSize front) :
    (leadingByte character == byteOf first &&
        (encode (front ++ character :: behind))[loop.index + 1]? == some (byteOf second)) =
      decide (character = first ∧ behind.head? = some second) := by
  rw [Text.leading_byte_beq firstAscii, Bool.decide_and]
  by_cases same : character = first
  · rw [same, index, next_byte firstAscii secondAscii]
  · rw [decide_eq_false same, Bool.false_and, Bool.false_and]

/-- A round at the start of a character, said in characters. -/
theorem round_eq (index : loop.index = byteSize front) :
    loop.round (encode (front ++ character :: behind)) (leadingByte character) =
      let begun := loop.begin (leadingByte character)
      if loop.inComment = true then
        if character = '*' ∧ behind.head? = some '/' then
          some ({ begun with inComment := false }.forward 2)
        else some (begun.forward 1)
      else if character = '/' ∧ behind.head? = some '*' then
        some ({ begun with inComment := true }.forward 2)
      else
        (begun.code (encode (front ++ character :: behind)) (leadingByte character)).map
          (Loop.forward 1) := by
  simp only [Loop.round, at_pair '*' '/' (by decide) (by decide) index,
    at_pair '/' '*' (by decide) (by decide) index, decide_eq_true_eq]

theorem ended_eq :
    loop.ended? bytes (leadingByte character) =
      if character = '}' ∧ loop.depth = 1 then loop.start
      else if character = ';' ∧ loop.depth = 0 then
        loop.start.filter fun start => bytes[start]? == some (byteOf '@')
      else none := by
  rw [Loop.ended?, Text.leading_byte_beq (by decide), Text.leading_byte_beq (by decide)]
  simp only [Bool.and_eq_true, decide_eq_true_eq, beq_iff_eq]

theorem nest_eq :
    loop.nest (leadingByte character) =
      if character = '{' then { loop with depth := loop.depth + 1 }
      else if character = '}' then
        if loop.depth = 0 then { loop with start := none }
        else { loop with depth := loop.depth - 1 }
      else loop := by
  rw [Loop.nest, Text.leading_byte_beq (by decide), Text.leading_byte_beq (by decide)]
  simp only [decide_eq_true_eq, beq_iff_eq]

theorem code_of_unended {byte : UInt8} (ended : loop.ended? bytes byte = none) :
    loop.code bytes byte = some (loop.nest byte) := by
  rw [Loop.code, ended]

/-- Inside a character of a rule nothing happens. -/
theorem round_inside {byte : UInt8} (inside : Text.isContinuation byte = true)
    (begun : loop.start.isSome = true) :
    loop.ended? bytes byte = none ∧ loop.round bytes byte = some (loop.forward 1) := by
  have other {mark : Char} (ascii : mark.toNat < 0x80) : (byte == byteOf mark) = false :=
    Text.continuation_ne ascii inside
  have same : loop.begin byte = loop := by
    rw [Loop.begin, Option.isNone_eq_false_iff.2 begun]
    rfl
  have ended : loop.ended? bytes byte = none := by
    rw [Loop.ended?, other (by decide), other (by decide)]
    rfl
  have nested : loop.nest byte = loop := by
    rw [Loop.nest, other (by decide), other (by decide)]
    rfl
  refine ⟨ended, ?_⟩
  simp only [Loop.round, same, other (show '*'.toNat < 0x80 by decide),
    other (show '/'.toNat < 0x80 by decide), Loop.code, ended, nested, Bool.false_and,
    Bool.false_eq_true, if_false, Option.map_some, ite_self]

end Reading

section Code

variable {front behind pending : Text} {character : Char} {loop : Loop} {scan : Scan}
variable {start : Nat}

theorem agrees_plain (mode : scan.mode = .plain) (comment : loop.inComment = false)
    (depth : loop.depth = scan.depth) (rules : loop.rules = scan.rules.reverse)
    (starts : Starts front scan.pending loop.start) : loop.Agrees scan front behind where
  depth := depth
  rules := rules
  start := starts
  comment := ⟨fun _ => .inl mode, fun _ => comment⟩
  noOpener := fun slash => nomatch mode.symm.trans slash
  noCloser := fun star => nomatch mode.symm.trans star

theorem agrees_inside
    (mode : scan.mode = .inside ∨ (scan.mode = .star ∧ behind.head? ≠ some '/'))
    (comment : loop.inComment = true) (depth : loop.depth = scan.depth)
    (rules : loop.rules = scan.rules.reverse) (starts : Starts front scan.pending loop.start) :
    loop.Agrees scan front behind where
  depth := depth
  rules := rules
  start := starts
  comment := by
    rw [comment]
    rcases mode with inside | ⟨star, _⟩
    · simp [Scan.Outside, inside]
    · simp [Scan.Outside, star]
  noOpener := by
    intro slash
    rcases mode with inside | ⟨star, _⟩
    · exact nomatch inside.symm.trans slash
    · exact nomatch star.symm.trans slash
  noCloser := by
    intro star
    rcases mode with inside | ⟨_, apart⟩
    · exact nomatch inside.symm.trans star
    · exact apart

/-- What is pending up to a character is what is cut out behind it. -/
theorem slice_pending (starts : Starts (front ++ [character]) pending (some start)) :
    Text.slice? (encode (front ++ character :: behind)) start (byteSize (front ++ [character])) =
      some pending.reverse := by
  cases starts with
  | @begun before _ shape nonempty =>
      have cut := Text.slice_between before pending.reverse behind
      rwa [← shape, ← List.append_cons] at cut

/-- The first byte of what is pending tells a statement. -/
theorem at_sign (starts : Starts (front ++ [character]) pending (some start)) :
    ((encode (front ++ character :: behind))[start]? == some (byteOf '@')) =
      isStatement pending := by
  cases starts with
  | @begun before _ shape nonempty =>
      obtain ⟨last, found⟩ := List.getLast?_isSome.2 nonempty |> Option.isSome_iff_exists.1
      have first : (pending.reverse ++ behind).head? = some last := by
        rw [List.head?_append, List.head?_reverse, found]
        rfl
      rw [List.append_cons, shape, List.append_assoc, Text.byte_at_front, first, isStatement, found,
        Option.map_some, Bool.eq_iff_iff, beq_iff_eq, beq_iff_eq, Option.some_inj, Option.some_inj]
      exact Text.leading_byte_eq_iff (by decide)

/-- Only a closing brace or the semicolon of a statement ends a rule. -/
theorem ended_of_starts (starts : Starts (front ++ [character]) pending loop.start)
    (noBrace : character ≠ '}') :
    loop.ended? (encode (front ++ character :: behind)) (leadingByte character) =
      if character = ';' ∧ loop.depth = 0 ∧ isStatement pending = true then loop.start
      else none := by
  rw [ended_eq, if_neg fun both => noBrace both.1]
  by_cases semicolon : character = ';' ∧ loop.depth = 0
  · rw [if_pos semicolon]
    cases begun : loop.start with
    | none => simp
    | some start =>
        rw [begun] at starts
        rw [Option.filter_some, at_sign starts]
        simp only [semicolon, true_and]
  · rw [if_neg semicolon, if_neg fun all => semicolon ⟨all.1, all.2.1⟩]

section Emit

variable (index : loop.index = byteSize front) (comment : loop.inComment = false)
variable (rules : loop.rules = scan.rules.reverse)
variable (starts : Starts (front ++ [character]) (push character scan.pending) loop.start)

include index comment rules starts

theorem emit_agrees {start : Nat} (ascii : character.toNat < 0x80) (begun : loop.start = some start)
    (ended : loop.ended? (encode (front ++ character :: behind)) (leadingByte character) =
      some start) :
    ∃ next, loop.code (encode (front ++ character :: behind)) (leadingByte character) =
        some next ∧ next.Agrees (scan.emit character) (front ++ [character]) behind := by
  have further : loop.index + 1 = byteSize (front ++ [character]) := by
    rw [index, Text.byte_size_append, size_of_ascii ascii]
  rw [begun] at starts
  have found : loop.rules ++ [⟨(push character scan.pending).reverse⟩] =
      (scan.emit character).rules.reverse := by
    rw [rules]
    exact List.reverse_cons.symm
  refine ⟨{ loop with
    depth := 0, start := none, rules := loop.rules ++ [⟨(push character scan.pending).reverse⟩] },
    ?_, agrees_plain rfl comment rfl found .idle⟩
  rw [Loop.code, ended, further]
  dsimp only
  rw [slice_pending starts]
  rfl

/-- A closing brace ends what is pending at depth zero, a rule at depth one, and an inner
block otherwise. -/
theorem brace_agrees (brace : character = '}') (depth : loop.depth = scan.depth) :
    ∃ next, loop.code (encode (front ++ character :: behind)) (leadingByte character) =
        some next ∧ next.Agrees (scan.plainStep character) (front ++ [character]) behind := by
  subst brace
  unfold Scan.plainStep
  dsimp only
  rw [if_neg (by decide), if_neg (by decide), if_pos rfl]
  split
  · rename_i shallow
    have here : loop.depth = 0 := depth.trans shallow
    refine ⟨{ loop with start := none }, ?_, agrees_plain rfl comment depth rules .idle⟩
    rw [code_of_unended (by simp [ended_eq, here]), nest_eq]
    simp [here]
  · rename_i one
    have here : loop.depth = 1 := depth.trans one
    have nonempty : push '}' scan.pending ≠ [] := by
      rw [push_of_not_layout rfl]
      exact List.cons_ne_nil _ _
    obtain ⟨start, begun⟩ := Option.isSome_iff_exists.1 (start_of_pending starts nonempty)
    apply emit_agrees index comment rules starts (by decide) begun
    rw [ended_eq, if_pos ⟨rfl, here⟩, begun]
  · rename_i outer deeper
    have here : loop.depth = outer + 2 := depth.trans deeper
    refine ⟨{ loop with depth := outer + 1 }, ?_, agrees_plain rfl comment rfl rules starts⟩
    rw [code_of_unended (by simp [ended_eq, here]), nest_eq]
    simp [here]

/-- A character outside of comments, unless it opens one, does to the loop what it does to
the scan, and no cut fails. -/
theorem code_agrees (depth : loop.depth = scan.depth)
    (noOpener : ¬(character = '/' ∧ behind.head? = some '*')) :
    ∃ next, loop.code (encode (front ++ character :: behind)) (leadingByte character) =
        some next ∧ next.Agrees (scan.plainStep character) (front ++ [character]) behind := by
  by_cases closing : character = '}'
  · exact brace_agrees index comment rules starts closing depth
  unfold Scan.plainStep
  dsimp only
  by_cases slash : character = '/'
  · subst slash
    rw [if_pos rfl]
    refine ⟨loop, code_of_unended (by rw [ended_eq]; rfl), depth, rules, starts, ?_, ?_, nofun⟩
    · exact ⟨fun _ => .inr rfl, fun _ => comment⟩
    · exact fun _ star => noOpener ⟨rfl, star⟩
  rw [if_neg slash]
  by_cases opening : character = '{'
  · subst opening
    rw [if_pos rfl]
    exact ⟨{ loop with depth := loop.depth + 1 }, code_of_unended (by rw [ended_eq]; rfl),
      agrees_plain rfl comment (congrArg (· + 1) depth) rules starts⟩
  rw [if_neg opening, if_neg closing]
  have ended : loop.ended? (encode (front ++ character :: behind)) (leadingByte character) =
      if character = ';' ∧ loop.depth = 0 ∧ isStatement (push character scan.pending) = true then
        loop.start
      else none := ended_of_starts starts closing
  by_cases ending : (character = ';' && scan.depth == 0 &&
      isStatement (push character scan.pending)) = true
  · rw [if_pos ending]
    simp only [Bool.and_eq_true, decide_eq_true_eq, beq_iff_eq] at ending
    obtain ⟨⟨semicolon, shallow⟩, statement⟩ := ending
    have nonempty : push character scan.pending ≠ [] := by
      intro empty
      rw [empty] at statement
      exact nomatch statement
    obtain ⟨start, begun⟩ := Option.isSome_iff_exists.1 (start_of_pending starts nonempty)
    have ascii : character.toNat < 0x80 := by
      rw [semicolon]
      decide
    apply emit_agrees index comment rules starts ascii begun
    rw [ended, if_pos ⟨semicolon, depth.trans shallow, statement⟩, begun]
  · rw [if_neg ending]
    refine ⟨loop, ?_, agrees_plain rfl comment depth rules starts⟩
    have nested : loop.nest (leadingByte character) = loop := by
      rw [nest_eq, if_neg opening, if_neg closing]
    rw [code_of_unended, nested]
    rw [ended, if_neg]
    rintro ⟨semicolon, shallow, statement⟩
    apply ending
    rw [statement, ← depth, shallow, semicolon]
    rfl

end Emit

end Code

section Progress

variable {css front behind rest : Text} {character : Char} {loop next : Loop} {byte : UInt8}

/-- A character beyond ASCII is pending once it is read. -/
theorem pending_of_wide (scan : Scan) (wide : 0x80 ≤ character.toNat) :
    (scan.step character).pending ≠ [] := by
  have other {mark : Char} (ascii : mark.toNat < 0x80) : character ≠ mark := by
    rintro rfl
    omega
  have move := step_move scan character
  generalize scan.step character = next at move
  cases move with
  | skip outside fresh layout =>
      rw [Text.isLayout, beq_eq_false_iff_ne.2 (other (by decide)),
        beq_eq_false_iff_ne.2 (other (by decide)), beq_eq_false_iff_ne.2 (other (by decide)),
        beq_eq_false_iff_ne.2 (other (by decide)),
        beq_eq_false_iff_ne.2 (other (by decide))] at layout
      exact absurd layout Bool.false_ne_true
  | extend mode depth => exact List.cons_ne_nil character scan.pending
  | discard outside brace depth => exact absurd brace (other (by decide))
  | emit outside ends =>
      rcases ends with ⟨brace, _⟩ | ⟨semicolon, _⟩
      · exact absurd brace (other (by decide))
      · exact absurd semicolon (other (by decide))

theorem pending_of_inside (inside : ¬(scan front).Outside) : (scan front).pending ≠ [] := by
  intro empty
  apply inside
  rw [idle_of_retraces (scan_retraces front) empty]
  exact .inl rfl

theorem starts_concat {pending : Text} {start : Option Nat} (starts : Starts front pending start)
    (nonempty : pending ≠ []) (character : Char) :
    Starts (front ++ [character]) (character :: pending) start := by
  cases starts with
  | idle => exact absurd rfl nonempty
  | begun shape nonempty =>
      refine .begun ?_ (List.cons_ne_nil character _)
      rw [shape, List.reverse_cons, List.append_assoc]

/-- One byte of a character was passed, and the character counts as read. -/
theorem follows_character (index : next.index = byteSize front + 1)
    (agrees : next.Agrees (scan (front ++ [character])) (front ++ [character]) behind) :
    next.Follows (front ++ character :: behind) := by
  rcases Nat.lt_or_ge character.toNat 0x80 with ascii | wide
  · apply Loop.Follows.between (List.append_cons front character behind)
    · rw [index, Text.byte_size_append, size_of_ascii ascii]
    · exact agrees
  · have several : 1 < byteSize [character] := by
      rw [byteSize, byteSize, Text.utf8_size_eq, if_neg (by omega)]
      split
      · omega
      · split <;> omega
    have pending : (scan (front ++ [character])).pending ≠ [] := by
      rw [scan_concat]
      exact pending_of_wide (scan front) wide
    apply Loop.Follows.inside rfl
    · omega
    · rw [index, Text.byte_size_append]
      omega
    · exact start_of_pending agrees.start pending
    · exact agrees

/-- Both characters of a delimiter were passed at once. -/
theorem follows_pair {first second : Char} (firstAscii : first.toNat < 0x80)
    (secondAscii : second.toNat < 0x80) (index : next.index = byteSize front + 2)
    (agrees : next.Agrees (scan (front ++ [first] ++ [second])) (front ++ [first] ++ [second])
      rest) : next.Follows (front ++ first :: second :: rest) := by
  refine .between (by simp) ?_ agrees
  rw [index, Text.byte_size_append, Text.byte_size_append, size_of_ascii firstAscii,
    size_of_ascii secondAscii]

end Progress

section Round

variable {css front behind : Text} {character : Char} {loop next : Loop} {byte : UInt8}

theorem begin_rest (loop : Loop) (byte : UInt8) :
    (loop.begin byte).depth = loop.depth ∧ (loop.begin byte).rules = loop.rules ∧
      (loop.begin byte).inComment = loop.inComment := by
  unfold Loop.begin
  split
  · exact ⟨rfl, rfl, rfl⟩
  · exact ⟨rfl, rfl, rfl⟩

/-- A round at a character inside of a comment. -/
theorem round_comment (index : loop.index = byteSize front)
    (agrees : loop.Agrees (scan front) front (character :: behind))
    (comment : loop.inComment = true) :
    ∃ next, loop.round (encode (front ++ character :: behind)) (leadingByte character) =
        some next ∧ next.Follows (front ++ character :: behind) := by
  have inside : ¬(scan front).Outside := by
    intro outside
    rw [agrees.comment.2 outside] at comment
    exact nomatch comment
  have starts := begin_starts index agrees.start character
  rw [push_pending character (pending_of_inside inside)] at starts
  obtain ⟨depth, rules, sameComment⟩ := begin_rest loop (leadingByte character)
  have begunIndex := (loop.begin_index (leadingByte character)).trans index
  have step := scan_concat front character
  rw [step_of_inside inside] at step
  rw [round_eq index]
  dsimp only
  rw [if_pos comment]
  by_cases closer : character = '*' ∧ behind.head? = some '/'
  · rw [if_pos closer]
    obtain ⟨rfl, head⟩ := closer
    obtain ⟨rest, rfl⟩ : ∃ rest, behind = '/' :: rest := List.head?_eq_some_iff.1 head
    have star : modeInside (scan front).mode '*' = .star := by simp [modeInside]
    have closed : scan (front ++ ['*'] ++ ['/']) =
        { scan front with mode := .plain, pending := '/' :: '*' :: (scan front).pending } := by
      rw [scan_concat, step, star]
      rfl
    refine ⟨_, rfl, follows_pair (by decide) (by decide) (congrArg (· + 2) begunIndex) ?_⟩
    rw [closed]
    exact agrees_plain rfl rfl (depth.trans agrees.depth) (rules.trans agrees.rules)
      (starts_concat starts (List.cons_ne_nil _ _) '/')
  · rw [if_neg closer]
    have mode : modeInside (scan front).mode character =
        if character = '*' then .star else .inside := by
      rw [modeInside, if_neg]
      rintro ⟨star, rfl⟩
      exact agrees.noCloser star rfl
    refine ⟨_, rfl, follows_character (congrArg (· + 1) begunIndex) ?_⟩
    rw [step, mode]
    by_cases star : character = '*'
    · rw [if_pos star]
      exact agrees_inside (.inr ⟨rfl, fun slash => closer ⟨star, slash⟩⟩)
        (sameComment.trans comment) (depth.trans agrees.depth) (rules.trans agrees.rules) starts
    · rw [if_neg star]
      exact agrees_inside (.inl rfl) (sameComment.trans comment) (depth.trans agrees.depth)
        (rules.trans agrees.rules) starts

/-- A round at a character outside of comments. -/
theorem round_code (index : loop.index = byteSize front)
    (agrees : loop.Agrees (scan front) front (character :: behind))
    (comment : loop.inComment = false) :
    ∃ next, loop.round (encode (front ++ character :: behind)) (leadingByte character) =
        some next ∧ next.Follows (front ++ character :: behind) := by
  have outside := agrees.comment.1 comment
  have goesOn : (scan front).mode = .slash → character ≠ '*' := by
    rintro slash rfl
    exact agrees.noOpener slash rfl
  have starts := begin_starts index agrees.start character
  obtain ⟨depth, rules, sameComment⟩ := begin_rest loop (leadingByte character)
  have begunIndex := (loop.begin_index (leadingByte character)).trans index
  have step := scan_concat front character
  rw [step_of_outside outside goesOn] at step
  rw [round_eq index]
  dsimp only
  rw [if_neg (by simp [comment])]
  by_cases opener : character = '/' ∧ behind.head? = some '*'
  · rw [if_pos opener]
    obtain ⟨rfl, head⟩ := opener
    obtain ⟨rest, rfl⟩ : ∃ rest, behind = '*' :: rest := List.head?_eq_some_iff.1 head
    have opened : scan (front ++ ['/'] ++ ['*']) =
        { scan front with
          mode := .inside
          pending := '*' :: push '/' (scan front).pending } := by
      rw [scan_concat, step]
      rfl
    have nonempty : push '/' (scan front).pending ≠ [] := by
      rw [push_of_not_layout rfl]
      exact List.cons_ne_nil _ _
    refine ⟨_, rfl, follows_pair (by decide) (by decide) (congrArg (· + 2) begunIndex) ?_⟩
    rw [opened]
    exact agrees_inside (.inl rfl) rfl (depth.trans agrees.depth) (rules.trans agrees.rules)
      (starts_concat starts nonempty '*')
  · rw [if_neg opener]
    obtain ⟨coded, done, codedAgrees⟩ := code_agrees begunIndex (sameComment.trans comment)
      (rules.trans agrees.rules) starts (depth.trans agrees.depth) opener
    rw [done]
    refine ⟨_, rfl, follows_character ?_ ?_⟩
    · exact congrArg (· + 1) ((Loop.code_index done).trans begunIndex)
    · rw [step]
      exact codedAgrees.forward 1

theorem follows_round (follows : loop.Follows css)
    (under : (encode css)[loop.index]? = some byte) :
    ∃ next, loop.round (encode css) byte = some next ∧ next.Follows css := by
  cases follows with
  | @between front behind shape index agrees =>
      subst shape
      rw [index, Text.byte_at_front] at under
      cases behind with
      | nil => exact nomatch under
      | cons character behind =>
          obtain rfl : leadingByte character = byte := Option.some.inj under
          cases comment : loop.inComment with
          | false => exact round_code index agrees comment
          | true => exact round_comment index agrees comment
  | @inside front behind character shape above below begun agrees =>
      subst shape
      obtain ⟨here, found, continued⟩ := Text.byte_inside above below
      obtain rfl : here = byte := Option.some.inj (found.symm.trans under)
      refine ⟨loop.forward 1, (round_inside continued begun).2, ?_⟩
      rcases Nat.lt_or_ge (loop.index + 1) (byteSize (front ++ [character])) with within | past
      · exact .inside rfl (Nat.lt_succ_of_lt above) within begun (agrees.forward 1)
      · exact .between (List.append_cons front character behind) (Nat.le_antisymm below past)
          (agrees.forward 1)

end Round

end StylePurge.Splitter
