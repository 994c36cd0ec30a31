import FirewallCore.MtdTool.Jffs2
import Mathlib.Order.Bounds.Basic
import Mathlib.Order.Interval.Finset.Nat

/-!
What the search through an eraseblock finds, and when it comes to an end without reading behind the
buffer.
-/

namespace FirewallCore.MtdTool.Jffs2

open FirewallCore.Lib FirewallCore.Lib.Walks

/-! ### The walk -/

/-- An offset, unless it is behind the buffer. -/
def within (buf : List UInt8) (ofs : Nat) : Option Nat := if ofs < buf.length then some ofs else none

/-- Where the node at an offset leads to. -/
def next (e : Endian) (buf : List UInt8) (ofs : Nat) : Option Nat :=
  if e.numberAt buf ofs 2 = JFFS2_MAGIC_BITMASK then
    within buf ((ofs + PAD (e.numberAt buf (ofs + 4) 4)) % 2 ^ 32)
  else none

/-- What is read at an offset is inside of the buffer: the magic number, if it is right the other fields of
the head, for a directory entry those up to its inode number and, where its name is compared, the name or a
byte of it that differs. -/
structure Readable (e : Endian) (buf dir : List UInt8) (ofs : Nat) : Prop where
  magic : ofs + 2 ≤ buf.length
  head : e.numberAt buf ofs 2 = JFFS2_MAGIC_BITMASK → ofs + 8 ≤ buf.length
  dirent : e.numberAt buf ofs 2 = JFFS2_MAGIC_BITMASK →
    e.numberAt buf (ofs + 2) 2 = JFFS2_NODETYPE_DIRENT → ofs + 24 ≤ buf.length
  name : e.numberAt buf ofs 2 = JFFS2_MAGIC_BITMASK →
    e.numberAt buf (ofs + 2) 2 = JFFS2_NODETYPE_DIRENT → dir ≠ [] → e.numberAt buf (ofs + 12) 4 = 1 →
      ofs + 29 ≤ buf.length ∧ (e.numberAt buf (ofs + 28) 1 ≤ (buf.drop (ofs + 40)).length ∨
        ¬buf.drop (ofs + 40) <+: dir)

section Walk

variable {e : Endian} {buf dir : List UInt8} {de fuel nodetype ofs : Nat} {s : Found}

theorem returns_isTarget_iff : Returns (isTarget e buf dir de) ↔ (dir ≠ [] → de + 16 ≤ buf.length ∧
    (e.numberAt buf (de + 12) 4 = 1 → de + 29 ≤ buf.length ∧
      (e.numberAt buf (de + 28) 1 ≤ (buf.drop (de + 40)).length ∨ ¬buf.drop (de + 40) <+: dir))) := by
  unfold isTarget
  by_cases none : dir = []
  · simp [none]
  · rw [if_neg none, readWord_eq, returns_readNumber_iff, forall_prop_of_true none]
    refine and_congr_right fun _ => ?_
    by_cases root : e.numberAt buf (de + 12) 4 = 1
    · rw [if_neg (not_not.mpr root), returns_readNumber_iff, forall_prop_of_true root]
      refine and_congr_right fun _ => ?_
      have compares := @outside_strncmp_iff (buf.drop (de + 40)) dir (e.numberAt buf (de + 28) 1)
      rw [← Nat.not_lt, ← not_and_or, ← compares, returns_bind_iff]
      cases done : strncmp (buf.drop (de + 40)) dir (e.numberAt buf (de + 28) 1) with
      | ok order => simp
      | error fault =>
        cases fault with
        | error fault => exact absurd done strncmp_ne_error
        | outside => simp
    · simp [root]

theorem returns_takeDirent_iff : Returns (takeDirent e buf dir de s) ↔ de + 24 ≤ buf.length ∧
    (dir ≠ [] → e.numberAt buf (de + 12) 4 = 1 → de + 29 ≤ buf.length ∧
      (e.numberAt buf (de + 28) 1 ≤ (buf.drop (de + 40)).length ∨ ¬buf.drop (de + 40) <+: dir)) := by
  have parts : Returns (takeDirent e buf dir de s) ↔
      Returns (isTarget e buf dir de) ∧ de + 24 ≤ buf.length ∧ de + 20 ≤ buf.length := by
    unfold takeDirent
    rw [returns_bind_iff]
    simp only [readWord_eq, returns_readNumber_iff, returns_ok, and_true, exists_and_right]
    rfl
  rw [parts, returns_isTarget_iff]
  constructor
  · rintro ⟨target, ino, -⟩
    exact ⟨ino, fun some root => (target some).2 root⟩
  · rintro ⟨ino, name⟩
    exact ⟨fun some => ⟨by omega, name some⟩, ino, by omega⟩

/-- A round of the loop. -/
theorem returns_parseLoop_iff (inside : ofs < buf.length) :
    Returns (parseLoop e buf dir (fuel + 1) ofs s) ↔ Readable e buf dir ofs ∧
      (e.numberAt buf ofs 2 = JFFS2_MAGIC_BITMASK →
        ∃ s', takeNode e buf dir ofs (e.numberAt buf (ofs + 2) 2) s = .ok s' ∧
          Returns (parseLoop e buf dir fuel ((ofs + PAD (e.numberAt buf (ofs + 4) 4)) % 2 ^ 32) s')) := by
  have right : (0x1985 : Nat) = JFFS2_MAGIC_BITMASK := rfl
  rw [parseLoop, if_pos inside, returns_readNumber_iff, right]
  by_cases magic : e.numberAt buf ofs 2 = JFFS2_MAGIC_BITMASK
  · rw [if_neg (not_not.mpr magic), readWord_eq, returns_readNumber_iff, returns_readNumber_iff,
      returns_bind_iff, forall_prop_of_true magic]
    constructor
    · rintro ⟨first, head, -, s', took, later⟩
      refine ⟨⟨first, fun _ => head, fun _ dirent => ?_, fun _ dirent some root => ?_⟩, s', took, later⟩
      · rw [takeNode, if_pos dirent] at took
        exact (returns_takeDirent_iff.mp ⟨s', took⟩).1
      · rw [takeNode, if_pos dirent] at took
        exact (returns_takeDirent_iff.mp ⟨s', took⟩).2 some root
    · rintro ⟨readable, s', took, later⟩
      have head := readable.head magic
      exact ⟨readable.magic, head, by omega, s', took, later⟩
  · rw [if_pos magic]
    constructor
    · rintro ⟨first, -⟩
      exact ⟨⟨first, fun same => absurd same magic, fun same => absurd same magic,
        fun same => absurd same magic⟩, fun same => absurd same magic⟩
    · rintro ⟨readable, -⟩
      exact ⟨readable.magic, returns_ok⟩

/-- What can be read of a node is taken. -/
theorem Readable.takes (readable : Readable e buf dir ofs)
    (magic : e.numberAt buf ofs 2 = JFFS2_MAGIC_BITMASK) (s : Found) :
    ∃ s', takeNode e buf dir ofs (e.numberAt buf (ofs + 2) 2) s = .ok s' := by
  unfold takeNode
  split
  · rename_i dirent
    exact returns_takeDirent_iff.mpr ⟨readable.dirent magic dirent, readable.name magic dirent⟩
  · exact ⟨s, rfl⟩

theorem within_some (inside : ofs < buf.length) : within buf ofs = some ofs := if_pos inside

theorem within_none (behind : ¬ofs < buf.length) : within buf ofs = none := if_neg behind

/-- The loop returns, for some number of rounds, exactly if the walk ends and all that is read on it is
inside of the buffer. -/
theorem parses_iff : (∃ fuel, Returns (parseLoop e buf dir fuel ofs s)) ↔
    Ends (next e buf) (within buf ofs) ∧
      ∀ n x, place (next e buf) (within buf ofs) n = some x → Readable e buf dir x := by
  constructor
  · rintro ⟨fuel, returns⟩
    induction fuel generalizing ofs s with
    | zero => cases not_returns_error returns
    | succ fuel ih =>
      by_cases inside : ofs < buf.length
      · obtain ⟨readable, later⟩ := (returns_parseLoop_iff inside).mp returns
        rw [within_some inside, ends_some, forall_visited, next]
        split
        · rename_i magic
          obtain ⟨s', -, returns⟩ := later magic
          exact ⟨(ih returns).1, readable, (ih returns).2⟩
        · refine ⟨ends_none, readable, fun n x visits => ?_⟩
          rw [place_none] at visits
          cases visits
      · rw [within_none inside]
        refine ⟨ends_none, fun n x visits => ?_⟩
        rw [place_none] at visits
        cases visits
  · rintro ⟨⟨n, ending⟩, readable⟩
    induction n generalizing ofs s with
    | zero =>
      by_cases inside : ofs < buf.length
      · rw [within_some inside] at ending
        cases ending
      · exact ⟨1, s, if_neg inside⟩
    | succ n ih =>
      by_cases inside : ofs < buf.length
      · rw [within_some inside, forall_visited] at readable
        rw [within_some inside, place_succ] at ending
        by_cases magic : e.numberAt buf ofs 2 = JFFS2_MAGIC_BITMASK
        · have leads : next e buf ofs = within buf ((ofs + PAD (e.numberAt buf (ofs + 4) 4)) % 2 ^ 32) :=
            if_pos magic
          rw [leads] at ending readable
          obtain ⟨s', took⟩ := readable.1.takes magic s
          obtain ⟨fuel, returns⟩ := @ih _ s' readable.2 ending
          exact ⟨fuel + 1, (returns_parseLoop_iff inside).mpr ⟨readable.1, fun _ => ⟨s', took, returns⟩⟩⟩
        · exact ⟨1, (returns_parseLoop_iff inside).mpr ⟨readable.1, fun same => absurd same magic⟩⟩
      · exact ⟨1, s, if_neg inside⟩

/-- The walk has finitely many places. -/
theorem finite_visited : {x | ∃ n, place (next e buf) (within buf ofs) n = some x}.Finite := by
  refine (Set.finite_lt_nat buf.length).subset ?_
  rintro x ⟨n, visits⟩
  have inside : ∀ {y z : Nat}, within buf y = some z → z < buf.length := by
    intro y z some
    unfold within at some
    split at some
    · rename_i inside
      cases some
      exact inside
    · cases some
  cases n with
  | zero => exact inside visits
  | succ n =>
    obtain ⟨y, -, leads⟩ := Option.bind_eq_some_iff.mp visits
    unfold next at leads
    split at leads
    · exact inside leads
    · cases leads

end Walk

/-! ### What is found -/

/-- The comparison takes the entry for the directory. -/
def Entry.IsTaken (dir : List UInt8) (x : Entry) : Prop := dir ≠ [] ∧ x.pino = 1 ∧ Accepts x.name dir

/-- The entry is the directory, if one is requested. -/
def Entry.IsNamed (dir : List UInt8) (x : Entry) : Prop := dir ≠ [] ∧ x.pino = 1 ∧ x.name = dir

instance (dir : List UInt8) (x : Entry) : Decidable (x.IsTaken dir) := inferInstanceAs (Decidable (_ ∧ _ ∧ _))

instance (dir : List UInt8) (x : Entry) : Decidable (x.IsNamed dir) := inferInstanceAs (Decidable (_ ∧ _ ∧ _))

/-- The state after an entry. -/
def Found.see (dir : List UInt8) (s : Found) (x : Entry) : Found :=
  ⟨if x.IsTaken dir then x.ino else s.targetIno, if s.lastIno < x.ino then x.ino else s.lastIno,
    if s.lastVersion < x.version then x.version else s.lastVersion⟩

section Entries

variable {e : Endian} {buf dir front node padding rest : List UInt8} {nodes : List (List UInt8)}
  {de fuel : Nat} {s s' : Found} {es : List Entry}

/-- The entry of a node inside of a buffer is seen. -/
theorem takeNode_eq (isNode : IsNode e node) :
    takeNode e (front ++ (node ++ rest)) dir front.length (e.numberAt node 2 2) s =
      .ok (if e.numberAt node 2 2 = JFFS2_NODETYPE_DIRENT then s.see dir (entryOf e node) else s) := by
  unfold takeNode
  split
  · rename_i dirent
    have length := isNode.dirent dirent
    unfold direntSize at length
    have field : ∀ {pos size : Nat}, pos + size ≤ 40 →
        (readNumber e size (front ++ (node ++ rest)) (front.length + pos) : Checked Unfinished Nat) =
          .ok (e.numberAt node pos size) := by
      intro pos size inside
      rw [readNumber_inside (by simp only [List.length_append]; omega), numberAt_append,
        numberAt_append_left (by omega)]
    have name : (front ++ (node ++ rest)).drop (front.length + 40) = node.drop 40 ++ rest := by
      rw [List.drop_append, List.drop_eq_nil_of_le (Nat.le_add_right _ _), Nat.add_sub_cancel_left,
        List.nil_append, List.drop_append_of_le_length (by omega)]
    have inside : e.numberAt node 28 1 ≤ (node.drop 40).length := by
      rw [List.length_drop]
      omega
    obtain ⟨order, compares, zero⟩ := @strncmp_spec (node.drop 40 ++ rest) dir (e.numberAt node 28 1)
      (inside.trans (by rw [List.length_append]; omega))
    rw [List.take_append_of_le_length inside] at zero
    have target : isTarget e (front ++ (node ++ rest)) dir front.length =
        .ok (decide ((entryOf e node).IsTaken dir)) := by
      unfold isTarget Entry.IsTaken
      by_cases none : dir = []
      · simp [none]
      · rw [if_neg none, readWord_eq, field (by decide), ok_bind]
        by_cases root : e.numberAt node 12 4 = 1
        · rw [if_neg (not_not.mpr root), field (by decide), ok_bind, name, compares, ok_bind]
          simp only [ne_eq, none, not_false_eq_true, entryOf, root, true_and, zero]
        · simp [entryOf, root]
    rw [takeDirent, target, ok_bind, readWord_eq, field (by decide), ok_bind, readWord_eq, field (by decide),
      ok_bind]
    refine congrArg Except.ok ?_
    unfold Found.see
    by_cases taken : (entryOf e node).IsTaken dir
    · rw [if_pos (decide_eq_true taken), if_pos taken]
      rfl
    · rw [if_neg (by rw [decide_eq_true_eq]; exact taken), if_neg taken]
      rfl
  · rfl

/-- A sequence of nodes behind a first part of a buffer: each of its entries is seen. -/
theorem parseLoop_sequence (sequence : IsSequence e rest nodes) (small : front.length + rest.length < 2 ^ 31)
    (returned : parseLoop e (front ++ rest) dir fuel front.length s = .ok s') :
    s' = (entries e nodes).foldl (Found.see dir) s := by
  induction sequence generalizing front fuel s with
  | @free rest free =>
    cases fuel with
    | zero => cases returned
    | succ fuel =>
      rw [parseLoop] at returned
      split at returned
      · obtain ⟨magic, read, later⟩ := bind_eq_ok_iff.mp returned
        have at_rest : e.numberAt (front ++ rest) front.length 2 = e.numberAt rest 0 2 :=
          @numberAt_append e rest 0 2 front
        rw [← (readNumber_eq_ok.mp read).2, at_rest, if_pos (show e.numberAt rest 0 2 ≠ 0x1985 from free)] at later
        cases later
        rfl
      · cases returned
        rfl
  | @node node padding rest nodes isNode padded later ih =>
    have header := isNode.header
    unfold unknownSize at header
    rw [List.append_assoc] at small returned
    simp only [List.length_append] at small
    have field : ∀ {pos size : Nat}, pos + size ≤ 12 →
        (readNumber e size (front ++ (node ++ (padding ++ rest))) (front.length + pos) :
          Checked Unfinished Nat) = .ok (e.numberAt node pos size) := by
      intro pos size inside
      rw [readNumber_inside (by simp only [List.length_append]; omega), numberAt_append,
        numberAt_append_left (by omega)]
    have magic : (readNumber e 2 (front ++ (node ++ (padding ++ rest))) front.length :
        Checked Unfinished Nat) = .ok 0x1985 := (@field 0 2 (by decide)).trans (congrArg _ isNode.magic)
    cases fuel with
    | zero => cases returned
    | succ fuel =>
      rw [parseLoop, if_pos (by simp only [List.length_append]; omega), magic, ok_bind, if_neg (by simp),
        readWord_eq, field (by decide), ok_bind, field (by decide), ok_bind, takeNode_eq isNode, ok_bind,
        isNode.totlen, PAD_eq (by omega), Nat.mod_eq_of_lt (by unfold gap; omega)] at returned
      have seen : (entries e (node :: nodes)).foldl (Found.see dir) s = (entries e nodes).foldl (Found.see dir)
          (if e.numberAt node 2 2 = JFFS2_NODETYPE_DIRENT then s.see dir (entryOf e node) else s) := by
        unfold entries
        rw [List.filter_cons]
        split <;> simp_all
      rw [seen]
      rcases padded with whole | ⟨short, rfl⟩
      · have behind : front.length + (node.length + gap node.length) = (front ++ (node ++ padding)).length := by
          simp only [List.length_append, whole]
        have split : front ++ (node ++ (padding ++ rest)) = front ++ (node ++ padding) ++ rest := by
          simp only [List.append_assoc]
        rw [behind, split] at returned
        refine ih ?_ returned
        simp only [List.length_append]
        omega
      · obtain rfl := isSequence_nil.mp later
        cases fuel with
        | zero => cases returned
        | succ fuel =>
          rw [parseLoop, if_neg (by simp only [List.length_append, List.length_nil]; omega)] at returned
          cases returned
          rfl

/-- The entry that decides is the last one that is taken. -/
theorem targetIno_foldl : (es.foldl (Found.see dir) s).targetIno =
    ((es.filter fun x => x.IsTaken dir).getLast?.map Entry.ino).getD s.targetIno := by
  induction es using List.reverseRecOn with
  | nil => rfl
  | append_singleton es x ih =>
    rw [List.foldl_concat, List.filter_append]
    by_cases taken : x.IsTaken dir
    · have one : [x].filter (fun x => decide (x.IsTaken dir)) = [x] := by simp [taken]
      rw [one, List.getLast?_concat]
      exact if_pos taken
    · have none : [x].filter (fun x => decide (x.IsTaken dir)) = [] := by simp [taken]
      rw [none, List.append_nil, ← ih]
      exact if_neg taken

/-- A number that is raised by each entry in turn. -/
theorem isGreatest_foldl (f : Entry → Nat) (m : Nat) :
    IsGreatest {n | n = m ∨ ∃ x ∈ es, n = f x} (es.foldl (fun m x => if m < f x then f x else m) m) := by
  induction es generalizing m with
  | nil => exact ⟨.inl rfl, fun n member => by simp_all⟩
  | cons x es ih =>
    obtain ⟨member, upper⟩ := ih (if m < f x then f x else m)
    have least : (if m < f x then f x else m) ≤
        es.foldl (fun m x => if m < f x then f x else m) (if m < f x then f x else m) := upper (.inl rfl)
    rw [List.foldl_cons]
    constructor
    · rcases member with same | ⟨y, later, same⟩
      · rw [same]
        split
        · exact .inr ⟨x, List.mem_cons_self, rfl⟩
        · exact .inl rfl
      · exact .inr ⟨y, List.mem_cons_of_mem _ later, same⟩
    · rintro n (rfl | ⟨y, member, rfl⟩)
      · refine le_trans ?_ least
        split <;> omega
      · rcases List.mem_cons.mp member with rfl | later
        · refine le_trans ?_ least
          split <;> omega
        · exact upper (.inr ⟨y, later, rfl⟩)

theorem lastIno_foldl : (es.foldl (Found.see dir) s).lastIno =
    es.foldl (fun m x => if m < x.ino then x.ino else m) s.lastIno := by
  induction es generalizing s with
  | nil => rfl
  | cons x es ih => exact ih

theorem lastVersion_foldl : (es.foldl (Found.see dir) s).lastVersion =
    es.foldl (fun m x => if m < x.version then x.version else m) s.lastVersion := by
  induction es generalizing s with
  | nil => rfl
  | cons x es ih => exact ih

theorem Entry.IsNamed.isTaken {x : Entry} (named : x.IsNamed dir) : x.IsTaken dir :=
  ⟨named.1, named.2.1, .inl (named.2.2 ▸ List.prefix_rfl)⟩

end Entries

/-! ### The search as a whole -/

/-- An eraseblock in memory. Its size is an `int`. -/
structure Eraseblock where
  bytes : List UInt8
  small : bytes.length < 2 ^ 31

/-- The inode number is that of an entry for the directory, if there is one, and the other numbers are the
greatest that were seen. -/
structure FindsDirectory (dir : List UInt8) (es : List Entry) (s s' : Found) : Prop where
  none : (∀ x ∈ es, ¬x.IsNamed dir) → s'.targetIno = s.targetIno
  some : (∃ x ∈ es, x.IsNamed dir) → ∃ x ∈ es, x.IsNamed dir ∧ s'.targetIno = x.ino
  lastIno : IsGreatest {n | n = s.lastIno ∨ ∃ x ∈ es, n = x.ino} s'.lastIno
  lastVersion : IsGreatest {n | n = s.lastVersion ∨ ∃ x ∈ es, n = x.version} s'.lastVersion

/-- The search returns and reads inside of the buffer only, and in a sequence of nodes it finds the
directory. -/
structure ScansWell (e : Endian) (b : Eraseblock) (dir : List UInt8) (s : Found) : Prop where
  returns : ∃ fuel s', mtdParseJffs2data e b.bytes dir fuel s = .ok s'
  finds : ∀ nodes, IsSequence e b.bytes nodes → ∀ fuel s', mtdParseJffs2data e b.bytes dir fuel s = .ok s' →
    FindsDirectory dir (entries e nodes) s s'

/-- The last entry that is taken has the inode number of one for the directory, or if there is none the
number from before. -/
def LastTakenRight (dir : List UInt8) (es : List Entry) (s : Found) : Prop :=
  ∀ x, (es.filter fun x => x.IsTaken dir).getLast? = some x →
    ((∀ y ∈ es, ¬y.IsNamed dir) → x.ino = s.targetIno) ∧
      ((∃ y ∈ es, y.IsNamed dir) → ∃ y ∈ es, y.IsNamed dir ∧ x.ino = y.ino)

section Search

variable {e : Endian} {b : Eraseblock} {dir : List UInt8} {s s' : Found} {es : List Entry}

theorem findsDirectory_iff :
    FindsDirectory dir es s (es.foldl (Found.see dir) s) ↔ LastTakenRight dir es s := by
  constructor
  · intro finds x last
    have target : (es.foldl (Found.see dir) s).targetIno = x.ino := by rw [targetIno_foldl, last]; rfl
    exact ⟨fun none => target.symm.trans (finds.none none), fun some => target ▸ finds.some some⟩
  · intro right
    refine ⟨fun none => ?_, fun some => ?_, lastIno_foldl ▸ isGreatest_foldl _ _,
      lastVersion_foldl ▸ isGreatest_foldl _ _⟩
    · rw [targetIno_foldl]
      cases last : (es.filter fun x => x.IsTaken dir).getLast? with
      | none => rfl
      | some x => exact (right x last).1 none
    · rw [targetIno_foldl]
      cases last : (es.filter fun x => x.IsTaken dir).getLast? with
      | none =>
        obtain ⟨x, member, named⟩ := some
        rw [List.getLast?_eq_none_iff, List.filter_eq_nil_iff] at last
        exact absurd (decide_eq_true named.isTaken) (last x member)
      | some x => exact (right x last).2 some

theorem parse_sequence {nodes : List (List UInt8)} {fuel : Nat} (sequence : IsSequence e b.bytes nodes)
    (returned : mtdParseJffs2data e b.bytes dir fuel s = .ok s') :
    s' = (entries e nodes).foldl (Found.see dir) s :=
  @parseLoop_sequence e dir [] b.bytes nodes fuel s s' sequence (by simpa using b.small) returned

/-- The search is right exactly if no node leads back to one before it, all that is read is inside of the
buffer, and in a sequence of nodes the last entry that is taken is right. -/
theorem scansWell_iff : ScansWell e b dir s ↔
    NeverBack (next e b.bytes) (within b.bytes 0) ∧
      (∀ n ofs, place (next e b.bytes) (within b.bytes 0) n = some ofs → Readable e b.bytes dir ofs) ∧
      ∀ nodes, IsSequence e b.bytes nodes → LastTakenRight dir (entries e nodes) s := by
  have parses : (∃ fuel s', mtdParseJffs2data e b.bytes dir fuel s = .ok s') ↔ _ :=
    @parses_iff e b.bytes dir 0 s
  rw [← ends_iff_neverBack finite_visited, ← and_assoc, ← parses]
  constructor
  · rintro ⟨returns, finds⟩
    refine ⟨returns, fun nodes sequence => ?_⟩
    obtain ⟨fuel, s', returned⟩ := returns
    rw [← findsDirectory_iff, ← parse_sequence sequence returned]
    exact finds nodes sequence fuel s' returned
  · rintro ⟨returns, right⟩
    refine ⟨returns, fun nodes sequence fuel s' returned => ?_⟩
    rw [parse_sequence sequence returned, findsDirectory_iff]
    exact right nodes sequence

end Search

/-! ### Blocks that are searched wrongly -/

/-- An entry of the root directory for a directory `e`, with the inode number 2. -/
def direntE : List UInt8 :=
  [0x85, 0x19, 0x01, 0xe0, 0x29, 0x00, 0x00, 0x00, 0x6d, 0xa6, 0x2f, 0xd7, 0x01, 0x00, 0x00, 0x00, 0x01, 0x00,
    0x00, 0x00, 0x02, 0x00, 0x00, 0x00, 0x00, 0x00, 0x00, 0x00, 0x01, 0x04, 0x00, 0x00, 0xf1, 0xfb, 0x81, 0x98,
    0xd7, 0x95, 0xd8, 0x3d, 0x65]

/-- A block with this entry, and nothing written behind it. -/
def shortName : Eraseblock where
  bytes := direntE ++ [0xff, 0xff, 0xff] ++ List.replicate 4052 0xff
  small := by
    simp only [List.length_append, List.length_replicate]
    decide

/-- The head of a node of length 0. -/
def headZero : List UInt8 := [0x85, 0x19, 0x01, 0xe0, 0x00, 0x00, 0x00, 0x00]

/-- A block that starts with a node of length 0. -/
def zeroLength : Eraseblock where
  bytes := headZero ++ List.replicate 4088 0x00
  small := by
    simp only [List.length_append, List.length_replicate]
    decide

theorem shortName_sequence : IsSequence .little shortName.bytes [direntE] := by
  have isNode : IsNode .little direntE := by
    constructor
    · decide
    · decide
    · decide
    · decide
  have padded : ([0xff, 0xff, 0xff] : List UInt8).length = gap direntE.length := by decide
  have sequence : IsSequence .little (direntE ++ [0xff, 0xff, 0xff] ++ List.replicate 4052 0xff) [direntE] :=
    .node isNode (.inl padded) (isSequence_erased 4052)
  rw [shortName]
  exact sequence

theorem zeroLength_next : next .little zeroLength.bytes 0 = within zeroLength.bytes 0 := by
  have field : ∀ {pos size : Nat}, pos + size ≤ 8 →
      Endian.little.numberAt zeroLength.bytes pos size = Endian.little.numberAt headZero pos size :=
    fun inside => numberAt_append_left inside
  have magic : Endian.little.numberAt zeroLength.bytes 0 2 = JFFS2_MAGIC_BITMASK :=
    (field (by decide)).trans (by decide)
  have length : Endian.little.numberAt zeroLength.bytes (0 + 4) 4 = 0 := (field (by decide)).trans (by decide)
  rw [next, if_pos magic, length]
  rfl

/-- `etc` is searched for and `e` taken, and a node of length 0 leads back to itself. -/
theorem not_scansWell : ¬ScansWell .little shortName [0x65, 0x74, 0x63] ⟨0, 0, 0⟩ ∧
    ¬ScansWell .little zeroLength [0x65, 0x74, 0x63] ⟨0, 0, 0⟩ := by
  constructor
  · rintro ⟨⟨fuel, s', returned⟩, finds⟩
    have result := parse_sequence shortName_sequence returned
    have target := (finds _ shortName_sequence fuel s' returned).none (by decide)
    rw [result] at target
    revert target
    decide
  · rintro ⟨returns, -⟩
    have never := (parses_iff.mp returns).1.neverBack
    have first : within zeroLength.bytes 0 = some 0 := by
      have length : zeroLength.bytes.length = headZero.length + 4088 := by
        rw [zeroLength, List.length_append, List.length_replicate]
      have head : headZero.length = 8 := rfl
      exact within_some (by omega)
    refine never 0 1 0 (by decide) ?_ ?_
    · rw [place, first]
    · rw [place, place, first, Option.bind_some, zeroLength_next, first]

end FirewallCore.MtdTool.Jffs2
