import StylePurge.Proofs.ByteRounds

/-!
The split of a text byte by byte. In every state that the loop comes through it is inside of
the text, cuts only between characters and loses no block that is closed. At the end it has
found the rules that the scan of the characters finds.
-/

namespace StylePurge.Splitter

open Text (Bytes Boundary byteOf byteSize encode leadingByte)

section Run

variable {css : Text} {loop : Loop}

/-- The states that the loop comes through. -/
inductive Loop.Reached (bytes : Bytes) : Loop → Prop where
  | first : Reached bytes Loop.first
  | round {loop next : Loop} {byte : UInt8} (reached : Reached bytes loop)
      (under : bytes[loop.index]? = some byte) (done : loop.round bytes byte = some next) :
      Reached bytes next

theorem follows_of_reached (reached : Loop.Reached (encode css) loop) : loop.Follows css := by
  induction reached with
  | first => exact .between (List.nil_append css).symm rfl (agrees_plain rfl rfl rfl rfl .idle)
  | round reached under done induction =>
      obtain ⟨next, found, follows⟩ := follows_round induction under
      rwa [Option.some.inj (done.symm.trans found)]

theorem run_reaches (reached : Loop.Reached (encode css) loop) :
    ∃ final, loop.run (encode css) = some final ∧ Loop.Reached (encode css) final ∧
      (encode css)[final.index]? = none := by
  fun_induction Loop.run (encode css) loop with
  | case1 loop under => exact ⟨loop, rfl, reached, under⟩
  | case2 loop byte under failed =>
      obtain ⟨next, done, _⟩ := follows_round (follows_of_reached reached) under
      exact nomatch failed.symm.trans done
  | case3 loop byte under next done _ induction => exact induction (reached.round under done)

end Run

section Safety

variable {css front behind pending : Text} {loop : Loop} {byte : UInt8} {start : Nat}

/-- What the loop can rely on in a state: it is inside of the text, the rule it is in started
where a character starts, a round never fails, and a block that is closed is a rule. -/
structure Loop.Safe (loop : Loop) (css : Text) : Prop where
  index : loop.index ≤ (encode css).length
  start : ∀ start, loop.start = some start → Boundary css start ∧ start ≤ loop.index
  started : 0 < loop.depth ∨ loop.inComment = true → loop.start.isSome = true
  cut : ∀ byte, (encode css)[loop.index]? = some byte → ∀ start,
    (loop.begin byte).ended? (encode css) byte = some start →
      start ≤ loop.index ∧ Boundary css start ∧ Boundary css (loop.index + 1)
  round : ∀ byte, (encode css)[loop.index]? = some byte →
    ∃ next, loop.round (encode css) byte = some next
  closed : (encode css)[loop.index]? = some (byteOf '}') → loop.depth = 1 →
    loop.inComment = false → ∃ next rule, loop.round (encode css) (byteOf '}') = some next ∧
      next.depth = 0 ∧ next.rules = loop.rules ++ [rule]

theorem boundary_of_starts (starts : Starts front pending (some start)) (behind : Text) :
    Boundary (front ++ behind) start ∧ start ≤ byteSize front := by
  cases starts with
  | @begun before _ shape nonempty =>
      rw [shape]
      refine ⟨⟨before, pending.reverse ++ behind, List.append_assoc .., rfl⟩, ?_⟩
      rw [Text.byte_size_append]
      exact Nat.le_add_right _ _

theorem started_of_agrees (agrees : loop.Agrees (scan front) front behind)
    (busy : 0 < loop.depth ∨ loop.inComment = true) : loop.start.isSome = true := by
  apply start_of_pending agrees.start
  intro empty
  have idle := idle_of_retraces (scan_retraces front) empty
  rcases busy with deep | comment
  · rw [agrees.depth, idle] at deep
    exact nomatch deep
  · have outside : (scan front).Outside := by
      rw [idle]
      exact .inl rfl
    rw [agrees.comment.2 outside] at comment
    exact nomatch comment

/-- A block that is closed was started, so the round cuts out a rule. -/
theorem round_closed {bytes : Bytes} {next : Loop}
    (done : loop.round bytes (byteOf '}') = some next) (started : loop.start.isSome = true)
    (one : loop.depth = 1) (code : loop.inComment = false) :
    ∃ rule, next.depth = 0 ∧ next.rules = loop.rules ++ [rule] := by
  obtain ⟨start, begun⟩ := Option.isSome_iff_exists.1 started
  have same : loop.begin (byteOf '}') = loop := by
    rw [Loop.begin, begun]
    rfl
  have ended : loop.ended? bytes (byteOf '}') = some start := by
    rw [Loop.ended?, one, begun]
    rfl
  have noOpener : (byteOf '}' == byteOf '/') = false := by decide
  rw [Loop.round] at done
  simp only [code, same, noOpener, Loop.code, ended, Bool.false_and, Bool.false_eq_true, if_false,
    Option.map_map, Option.map_eq_some_iff] at done
  obtain ⟨text, _, rfl⟩ := done
  exact ⟨⟨text⟩, rfl, rfl⟩

theorem start_le_of_concat {character : Char}
    (starts : Starts (front ++ [character]) pending (some start)) : start ≤ byteSize front := by
  cases starts with
  | @begun before _ shape nonempty =>
      obtain ⟨last, earlier, rfl⟩ := List.exists_cons_of_ne_nil nonempty
      rw [List.reverse_cons, ← List.append_assoc] at shape
      rw [(List.append_inj' shape rfl).1, Text.byte_size_append]
      exact Nat.le_add_right _ _

theorem ended_start {bytes : Bytes} (ended : loop.ended? bytes byte = some start) :
    loop.start = some start ∧ (byte = byteOf '}' ∨ byte = byteOf ';') := by
  unfold Loop.ended? at ended
  split at ended
  · rename_i brace
    rw [Bool.and_eq_true, beq_iff_eq] at brace
    exact ⟨ended, .inl brace.1⟩
  split at ended
  · rename_i semicolon
    rw [Bool.and_eq_true, beq_iff_eq] at semicolon
    exact ⟨(Option.filter_eq_some_iff.1 ended).1, .inr semicolon.1⟩
  · exact nomatch ended

theorem safe_between (agrees : loop.Agrees (scan front) front behind)
    (index : loop.index = byteSize front) : loop.Safe (front ++ behind) where
  index := by
    rw [index, Text.encode_length, Text.byte_size_append]
    exact Nat.le_add_right _ _
  start start begun := by
    have starts := agrees.start
    rw [begun] at starts
    rw [index]
    exact boundary_of_starts starts behind
  started := started_of_agrees agrees
  cut byte under start ended := by
    rw [index, Text.byte_at_front] at under
    cases behind with
    | nil => exact nomatch under
    | cons character behind =>
        obtain rfl : leadingByte character = byte := Option.some.inj under
        have starts := begin_starts index agrees.start character
        obtain ⟨begun, mark⟩ := ended_start ended
        rw [begun] at starts
        have ascii : character.toNat < 0x80 := by
          rw [Text.leading_byte_eq_iff (by decide), Text.leading_byte_eq_iff (by decide)] at mark
          rcases mark with rfl | rfl
          · decide
          · decide
        rw [index, List.append_cons]
        refine ⟨start_le_of_concat starts, (boundary_of_starts starts behind).1,
          front ++ [character], behind, rfl, ?_⟩
        rw [Text.byte_size_append, size_of_ascii ascii]
  round byte under := by
    obtain ⟨next, done, _⟩ := follows_round (.between rfl index agrees) under
    exact ⟨next, done⟩
  closed under one code := by
    obtain ⟨next, done, _⟩ := follows_round (.between rfl index agrees) under
    have started := started_of_agrees agrees (.inl (by omega))
    obtain ⟨rule, depth, rules⟩ := round_closed done started one code
    exact ⟨next, rule, done, depth, rules⟩

theorem safe_inside {character : Char}
    (agrees : loop.Agrees (scan (front ++ [character])) (front ++ [character]) behind)
    (above : byteSize front < loop.index) (below : loop.index < byteSize (front ++ [character]))
    (begun : loop.start.isSome = true) : loop.Safe (front ++ character :: behind) := by
  have noMark {mark : Char} (ascii : mark.toNat < 0x80) :
      (encode (front ++ character :: behind))[loop.index]? ≠ some (byteOf mark) := by
    intro under
    obtain ⟨byte, found, continued⟩ := Text.byte_inside above below
    have other := Text.continuation_ne ascii continued
    rw [Option.some.inj (found.symm.trans under)] at other
    exact ne_of_beq_false other rfl
  refine ⟨?_, ?_, fun _ => begun, ?_, ?_, fun under => absurd under (noMark (by decide))⟩
  · rw [Text.encode_length, List.append_cons, Text.byte_size_append]
    exact Nat.le_add_right_of_le (Nat.le_of_lt below)
  · intro start begins
    have starts := agrees.start
    rw [begins] at starts
    rw [List.append_cons]
    exact ⟨(boundary_of_starts starts behind).1,
      Nat.le_of_lt (Nat.lt_of_le_of_lt (start_le_of_concat starts) above)⟩
  · intro byte under start ended
    rcases (ended_start ended).2 with rfl | rfl
    · exact absurd under (noMark (by decide))
    · exact absurd under (noMark (by decide))
  · intro byte under
    obtain ⟨next, done, _⟩ := follows_round (.inside rfl above below begun agrees) under
    exact ⟨next, done⟩

theorem safe_of_reached (reached : Loop.Reached (encode css) loop) : loop.Safe css := by
  cases follows_of_reached reached with
  | between shape index agrees =>
      rw [shape]
      exact safe_between agrees index
  | inside shape above below begun agrees =>
      rw [shape]
      exact safe_inside agrees above below begun

/-- Past the last byte the loop has read all characters. -/
theorem agrees_of_past (reached : Loop.Reached (encode css) loop)
    (past : (encode css)[loop.index]? = none) : loop.Agrees (scan css) css [] := by
  cases follows_of_reached reached with
  | @between front behind shape index agrees =>
      rw [shape, index, Text.byte_at_front, Option.map_eq_none_iff, List.head?_eq_none_iff] at past
      rw [past, List.append_nil] at shape
      rw [shape]
      rwa [past] at agrees
  | inside shape above below begun agrees =>
      obtain ⟨byte, found, _⟩ := Text.byte_inside above below
      rw [shape, found] at past
      exact nomatch past

theorem leftover_of_agrees (agrees : loop.Agrees (scan css) css behind) :
    loop.leftover (encode css) = byteSize (split css).leftover := by
  have starts := agrees.start
  change _ = byteSize (scan css).pending.reverse
  unfold Loop.leftover
  generalize loop.start = start at starts
  generalize (scan css).pending = pending at starts
  cases starts with
  | idle => rfl
  | @begun before _ shape nonempty =>
      dsimp only
      rw [Text.encode_length, shape, Text.byte_size_append, Nat.add_sub_cancel_left]

/-- Split byte by byte, every text is split safely and into the rules that the scan of its
characters finds, with the same text left over. -/
theorem bytes_split_alike (css : Text) :
    (∀ loop, Loop.Reached (encode css) loop → loop.Safe css) ∧
      ∃ final, scanBytes (encode css) = some final ∧ final.rules = rules css ∧
        final.leftover (encode css) = byteSize (split css).leftover := by
  refine ⟨fun loop reached => safe_of_reached reached, ?_⟩
  obtain ⟨final, done, reached, past⟩ := run_reaches (.first : Loop.Reached (encode css) .first)
  have agrees := agrees_of_past reached past
  exact ⟨final, done, agrees.rules, leftover_of_agrees agrees⟩

/-- Behind its first byte the loop stands inside of a character. -/
example : Loop.first.round (encode ['é', '{', '}']) 0xC3 = some ⟨1, 0, false, some 0, []⟩ := by
  decide

end Safety

end StylePurge.Splitter
