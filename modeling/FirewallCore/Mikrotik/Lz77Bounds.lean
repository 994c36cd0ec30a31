import FirewallCore.Mikrotik.Lz77Faithful

/-!
Where `rb_lz77_decompress` reads and writes, for any input.

The bounds are checked at the start of a round, and again for a match. An instruction is read
when there may be no bits left, and literal bytes are read and written without another check.
-/

namespace FirewallCore.Mikrotik.Lz77

open FirewallCore.Lib

/-- It returns, and has read and written within its buffers. -/
def StaysInside (input : List UInt8) (outLen : Nat) : Prop :=
  ∀ rounds, 8 * input.length < rounds →
    ∃ result, rbLz77Decompress input rounds outLen = some result ∧ ¬Outside result

/-- At a position, with so many bytes of output, there is no whole instruction left, or a group of
literal bytes that are not all there or do not fit. -/
def Breaks (inLen outLen pos size : Nat) (more : List Bool) : Prop :=
  more = [] ∨ more = [true] ∨ ∃ (g : Group) (later : List Bool), g.Coded ∧ more = g.header ++ later ∧
    ¬g.Cut inLen pos ∧ (later.length < 8 * g.literal.length ∨ outLen < size + g.literal.length)

section Rounds

variable {input out : List UInt8} {pos last outLen rounds : Nat} {more : List Bool}
  {groups : List Group} {g : Group}

/-- A header with other bytes behind it. -/
theorem Group.exists_literal {bs : List UInt8} (coded : g.Coded) (none : g.copies = 0)
    (size : bs.length = g.literal.length) :
    ∃ g' : Group, g'.Coded ∧ g'.header = g.header ∧ g'.literal = bs ∧ g'.copies = 0 := by
  cases g with
  | byte b =>
    obtain ⟨b', rfl⟩ := List.length_eq_one_iff.mp size
    exact ⟨.byte b', trivial, rfl, rfl, rfl⟩
  | bytes bs' =>
    have size : bs.length = bs'.length := size
    refine ⟨.bytes bs, ?_, ?_, rfl, rfl⟩
    · rwa [Group.Coded, size]
    · rw [Group.header, size, Group.header]
  | matched offset length =>
    have atLeast := coded.2.2.1
    have none : length = 0 := none
    omega
  | again length =>
    have atLeast := coded.1
    have none : length = 0 := none
    omega

theorem Group.copies_of_literal (some : g.literal ≠ []) : g.copies = 0 := by
  cases g with
  | byte b | bytes bs => rfl
  | matched offset length | again length => exact absurd rfl some

/-- Where the checks miss something, the round reaches outside of a buffer. -/
theorem decompressFrom_breaks (inside : pos ≤ 8 * input.length) (room : out.length ≤ outLen)
    (breaks : Breaks input.length outLen pos out.length ((bits input).drop pos)) :
    decompressFrom input outLen (rounds + 1) pos last out = some (.error .outside) := by
  have none : (bits input).drop pos = [] ∨ (bits input).drop pos = [true] →
      decompressFrom input outLen (rounds + 1) pos last out = some (.error .outside) := by
    intro rest
    rw [decompressFrom, if_neg (by omega), if_neg (by omega), decodeInstructionOperators,
      decodeInstruction_outside rest]
    rfl
  rcases breaks with rest | rest | ⟨g, later, coded, rest, clear, missing⟩
  · exact none (.inl rest)
  · exact none (.inr rest)
  · have some : g.literal ≠ [] := by
      intro empty
      rw [empty, List.length_nil] at missing
      omega
    have size := g.length_bits
    unfold Group.Cut at clear
    rw [decompressFrom_header _ _ coded rest room]
    dsimp only
    rw [if_pos (Group.copies_of_literal some), if_neg (by omega)]
    have behind := drop_append_right rest
    rcases copyLiterals_cases input g.literal.length (pos + g.header.length) room with
      ⟨bs, more, length, fits, there⟩ | ⟨-, outside⟩
    · have bounds := congrArg List.length there
      rw [behind, List.length_append, length_literalBits] at bounds
      omega
    · rw [outside]

/-- A round breaks, or it returns, or it expands a group. -/
theorem decompressFrom_cases (input : List UInt8) (pos last : Nat) (room : out.length ≤ outLen) :
    Breaks input.length outLen pos out.length ((bits input).drop pos) ∨
    (∃ result, ¬Outside result ∧
      ∀ rounds, decompressFrom input outLen (rounds + 1) pos last out = some result) ∨
    ∃ (g : Group) (more : List Bool), g.Valid last out ∧ (bits input).drop pos = g.bits ++ more ∧
      (g.expand last out).length ≤ outLen ∧ ¬g.Cut input.length pos := by
  rcases Nat.lt_or_ge (8 * input.length) pos with behind | inside
  · refine .inr (.inl ⟨.error (.error .enodata), not_outside_error, fun rounds => ?_⟩)
    rw [decompressFrom, if_neg (by omega), if_pos behind]
  · rcases decode_cases input pos last with ⟨rest, -⟩ | ⟨g, more, coded, rest⟩ | stops
    · exact .inl (rest.imp_right .inl)
    · by_cases cut : g.Cut input.length pos
      · exact .inr (.inl ⟨.ok out, not_outside_ok, fun rounds =>
          decompressFrom_cut coded rest room cut⟩)
      · have behind := drop_append_right rest
        by_cases none : g.copies = 0
        · rcases copyLiterals_cases input g.literal.length (pos + g.header.length) room with
            ⟨bs, later, size, fits, there⟩ | ⟨missing, -⟩
          · obtain ⟨g', coded', header, rfl, none'⟩ := g.exists_literal coded none size
            have valid : g'.Valid last out := ⟨coded', fun some => absurd none' some⟩
            refine .inr (.inr ⟨g', later, valid, ?_, ?_, ?_⟩)
            · rw [rest, ← behind, there, Group.bits, header, List.append_assoc]
            · rw [Group.length_expand valid, size, none']
              exact fits
            · rwa [Group.Cut, Group.length_bits, header, size, ← Group.length_bits]
          · rw [behind] at missing
            exact .inl (.inr (.inr ⟨g, more, coded, rest, cut, missing⟩))
        · right
          have start : ∀ rounds, _ := fun rounds =>
            decompressFrom_header rounds last coded rest room
          simp only [if_neg none] at start
          by_cases first : g.offset last = 0
          · exact .inl ⟨.error (.error .ebadmsg), not_outside_error, fun rounds =>
              (start rounds).trans (if_pos first)⟩
          · simp only [if_neg first] at start
            by_cases full : outLen < out.length + g.copies
            · exact .inl ⟨.error (.error .enobufs), not_outside_error, fun rounds =>
                (start rounds).trans (if_pos full)⟩
            · simp only [if_neg full] at start
              by_cases before : out.length < g.offset last
              · exact .inl ⟨.error (.error .espipe), not_outside_error, fun rounds =>
                  (start rounds).trans (if_pos before)⟩
              · have valid : g.Valid last out := ⟨coded, fun _ => ⟨by omega, by omega⟩⟩
                have empty : g.literal = [] := by
                  by_contra some
                  exact none (Group.copies_of_literal some)
                refine .inr ⟨g, more, valid, ?_, ?_, cut⟩
                · rw [rest, Group.bits, empty, List.flatMap_nil, List.append_nil]
                · rw [Group.length_expand valid, empty, List.length_nil]
                  omega
    · refine .inr (.inl ⟨.error (.error .efbig), not_outside_error, fun rounds => ?_⟩)
      rw [decompressFrom, if_neg (by omega), if_neg (by omega), stops]

/-- Each round uses a bit, so the decompressor returns. -/
theorem decompressFrom_returns (enough : 8 * input.length < pos + rounds)
    (inside : pos ≤ 8 * input.length) (room : out.length ≤ outLen) :
    ∃ result, decompressFrom input outLen rounds pos last out = some result := by
  induction rounds generalizing pos last out with
  | zero => omega
  | succ rounds ih =>
    rcases decompressFrom_cases input pos last room with
      breaks | ⟨result, -, returns⟩ | ⟨g, more, valid, rest, fits, clear⟩
    · exact ⟨_, decompressFrom_breaks inside room breaks⟩
    · exact ⟨result, returns rounds⟩
    · have size := drop_length rest
      have header := g.header_pos
      rw [List.length_append, Group.length_bits] at size
      rw [decompressFrom_group valid rest fits clear]
      exact ih (by rw [Group.length_bits]; omega) (by rw [Group.length_bits]; omega) fits

/-- What is reached outside of a buffer is behind groups that are expanded. -/
theorem decompressFrom_outside (room : out.length ≤ outLen)
    (outside : decompressFrom input outLen rounds pos last out = some (.error .outside)) :
    ∃ (groups : List Group) (more : List Bool), Valid groups last out ∧
      (bits input).drop pos = groupBits groups ++ more ∧
      (expand groups last out).length ≤ outLen ∧ Clear input.length pos groups ∧
      Breaks input.length outLen (pos + (groupBits groups).length)
        (expand groups last out).length more := by
  induction rounds generalizing pos last out with
  | zero => cases outside
  | succ rounds ih =>
    rcases decompressFrom_cases input pos last room with
      breaks | ⟨result, stays, returns⟩ | ⟨g, more, valid, rest, fits, clear⟩
    · exact ⟨[], _, trivial, rfl, room, trivial, breaks⟩
    · rw [returns, Option.some.injEq] at outside
      exact absurd outside stays
    · rw [decompressFrom_group valid rest fits clear] at outside
      obtain ⟨groups, more', valids, later, fits', clears, breaks⟩ := ih fits outside
      refine ⟨g :: groups, more', ⟨valid, valids⟩, ?_, fits', ⟨clear, clears⟩, ?_⟩
      · rw [rest, ← drop_append_right rest, later]
        exact (List.append_assoc _ _ _).symm
      · rw [groupBits, List.flatMap_cons, List.length_append, ← Nat.add_assoc]
        exact breaks

/-- What the checks miss. -/
theorem decompress_outside_iff (enough : 8 * input.length < rounds) :
    rbLz77Decompress input rounds outLen = some (.error .outside) ↔
      ∃ (groups : List Group) (more : List Bool), Valid groups 0 [] ∧
        bits input = groupBits groups ++ more ∧ (expand groups 0 []).length ≤ outLen ∧
        Clear input.length 0 groups ∧
        Breaks input.length outLen (groupBits groups).length (expand groups 0 []).length more := by
  constructor
  · intro outside
    obtain ⟨groups, more, valid, encoded, fits, clear, breaks⟩ :=
      decompressFrom_outside (Nat.zero_le _) outside
    rw [Nat.zero_add] at breaks
    exact ⟨groups, more, valid, encoded, fits, clear, breaks⟩
  · rintro ⟨groups, more, valid, encoded, room, clear, breaks⟩
    have start : (bits input).drop 0 = groupBits groups ++ more := encoded
    have behind := drop_append_right start
    have size := congrArg List.length encoded
    rw [length_bits, List.length_append] at size
    rw [Nat.zero_add] at behind
    rw [← behind] at breaks
    have few := length_le_groupBits groups
    obtain ⟨left, rfl⟩ : ∃ left, rounds = left + 1 + groups.length :=
      ⟨rounds - 1 - groups.length, by omega⟩
    rw [rbLz77Decompress, decompressFrom_groups valid start room clear, Nat.zero_add]
    exact decompressFrom_breaks (by omega) room breaks

theorem decompress_returns (enough : 8 * input.length < rounds) (outLen : Nat) :
    ∃ result, rbLz77Decompress input rounds outLen = some result :=
  decompressFrom_returns (by omega) (Nat.zero_le _) (Nat.zero_le _)

/-- What is decompressed fits. -/
theorem length_decompressFrom {result : List UInt8}
    (done : decompressFrom input outLen rounds pos last out = some (.ok result)) :
    result.length ≤ outLen := by
  fun_induction decompressFrom input outLen rounds pos last out with
  | case5 rounds pos last out full =>
    cases done
    omega
  | case7 rounds pos last out full behind opcode decoded pos' literal more out' copied ih =>
    exact ih done
  | case12 rounds pos last out full behind opcode decoded pos' copies last' first fits before out'
      copied ih =>
      exact ih done
  | case1 | case2 | case3 | case4 | case6 | case8 | case9 | case10 | case11 => cases done

end Rounds

/-- The decompressor stays inside of its buffers if and only if nothing that its checks miss is
behind groups that it expands. -/
theorem decompress_inside_iff (input : List UInt8) (outLen : Nat) :
    StaysInside input outLen ↔ ∀ groups more, Valid groups 0 [] →
      bits input = groupBits groups ++ more → (expand groups 0 []).length ≤ outLen →
      Clear input.length 0 groups →
      ¬Breaks input.length outLen (groupBits groups).length (expand groups 0 []).length more := by
  constructor
  · intro inside groups more valid encoded room clear breaks
    have enough := Nat.lt_succ_self (8 * input.length)
    obtain ⟨result, returned, stays⟩ := inside _ enough
    rw [(decompress_outside_iff enough).mpr ⟨groups, more, valid, encoded, room, clear, breaks⟩,
      Option.some.injEq] at returned
    exact stays returned.symm
  · intro none rounds enough
    obtain ⟨result, returned⟩ := decompress_returns enough outLen
    refine ⟨result, returned, fun outside => ?_⟩
    rw [show result = .error .outside from outside] at returned
    obtain ⟨groups, more, valid, encoded, fits, clear, breaks⟩ :=
      (decompress_outside_iff enough).mp returned
    exact none groups more valid encoded fits clear breaks

theorem not_staysInside {input : List UInt8} {outLen : Nat}
    (outside : rbLz77Decompress input (8 * input.length + 1) outLen = some (.error .outside)) :
    ¬StaysInside input outLen := by
  intro inside
  obtain ⟨result, returned, stays⟩ := inside _ (Nat.lt_succ_self _)
  rw [outside, Option.some.injEq] at returned
  exact stays returned.symm

/-- A literal byte of which a bit is missing, and one that the output has no room for. -/
theorem decompress_not_inside : ¬StaysInside [0] 65536 ∧ ¬StaysInside [0, 0] 0 :=
  ⟨not_staysInside (by decide +kernel), not_staysInside (by decide +kernel)⟩

end FirewallCore.Mikrotik.Lz77
