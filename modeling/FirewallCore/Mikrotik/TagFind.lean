import FirewallCore.Mikrotik.Routerboot
import Mathlib.Data.List.Basic

/-!
`routerboot_tag_find` on a list of tag nodes.

The lengths and the offset are kept in 16 bits. A length above 65532 is aligned to 0, and the
search goes on inside of the payload; a payload that starts from 65536 on is reported elsewhere.
-/

namespace FirewallCore.Mikrotik

open FirewallCore.Lib

/-- A tag: its identification, and the offset and the length of its payload. -/
structure Tag where
  id : Nat
  ofs : Nat
  len : Nat
  deriving DecidableEq, Repr

/-- From a position on, the buffer is a list of tag nodes, ended by a null node or by its end. -/
inductive TagList (e : Endian) (buf : List UInt8) : Nat → List Tag → Prop where
  | atEnd {pos : Nat} (done : buf.length ≤ pos) : TagList e buf pos []
  | null {pos : Nat} (node : (readWord e buf pos : Checked Errno Nat) = .ok 0) : TagList e buf pos []
  | node {pos id len : Nat} {later : List Tag}
      (node : (readWord e buf pos : Checked Errno Nat) = .ok (id + 2 ^ 16 * len))
      (notNull : id + 2 ^ 16 * len ≠ 0) (idFits : id < 2 ^ 16) (lenFits : len < 2 ^ 16)
      (inside : pos + 4 + len ≤ buf.length)
      (rest : TagList e buf (pos + 4 + (len + 3) / 4 * 4) later) :
      TagList e buf pos (⟨id, pos + 4, len⟩ :: later)

/-- The tag has this identification and a payload position inside of the buffer. -/
def Tag.Has (buf : List UInt8) (tagId : Nat) (tag : Tag) : Prop :=
  tag.id = tagId ∧ tag.ofs < buf.length

instance (buf : List UInt8) (tagId : Nat) (tag : Tag) : Decidable (tag.Has buf tagId) :=
  inferInstanceAs (Decidable (_ ∧ _))

/-- A length that is aligned to 0. -/
def Tag.Long (tag : Tag) : Prop := 65532 < tag.len

instance (tag : Tag) : Decidable tag.Long := inferInstanceAs (Decidable (_ < _))

/-- The tag is found if and only if there is one, and then the first such tag is reported. -/
structure FindsExactly (e : Endian) (buf : List UInt8) (tags : List Tag) (tagId : Nat) : Prop where
  found_iff : (∃ place, routerbootTagFind e buf buf.length tagId = .ok place) ↔
    ∃ tag ∈ tags, tag.Has buf tagId
  first : ∀ tag, tags.find? (·.Has buf tagId) = some tag →
    routerbootTagFind e buf buf.length tagId = .ok (tag.ofs, tag.len)

/-- With lengths aligned in 16 bits, the words from a position on lead to a node with this
identification, whose payload is here. -/
inductive Leads (e : Endian) (buf : List UInt8) (buflen tagId : Nat) : Nat → Nat → Nat → Prop where
  | here {pos node : Nat} (word : (readWord e buf pos : Checked Errno Nat) = .ok node)
      (notNull : node ≠ 0) (same : tagId = node % 2 ^ 16) (inside : pos + 4 < buflen) :
      Leads e buf buflen tagId pos (pos + 4) (node / 2 ^ 16)
  | on {pos node ofs len : Nat} (inside : pos < buflen)
      (word : (readWord e buf pos : Checked Errno Nat) = .ok node) (notNull : node ≠ 0)
      (other : tagId ≠ node % 2 ^ 16)
      (later : Leads e buf buflen tagId (pos + 4 + alignU16 (node / 2 ^ 16)) ofs len) :
      Leads e buf buflen tagId pos ofs len

/-- They lead to a word that is not all there. -/
inductive LeadsOut (e : Endian) (buf : List UInt8) (buflen tagId : Nat) : Nat → Prop where
  | here {pos : Nat} (inside : pos < buflen) (outside : buf.length < pos + 4) :
      LeadsOut e buf buflen tagId pos
  | on {pos node : Nat} (inside : pos < buflen)
      (word : (readWord e buf pos : Checked Errno Nat) = .ok node) (notNull : node ≠ 0)
      (other : tagId ≠ node % 2 ^ 16)
      (later : LeadsOut e buf buflen tagId (pos + 4 + alignU16 (node / 2 ^ 16))) :
      LeadsOut e buf buflen tagId pos

section Find

variable {e : Endian} {buf : List UInt8} {buflen tagId pos : Nat} {tags : List Tag} {tag : Tag}

theorem readWord_bounds {node : Nat} (word : (readWord e buf pos : Checked Errno Nat) = .ok node) :
    pos + 4 ≤ buf.length := by
  by_contra outside
  rw [readWord_outside (by omega)] at word
  cases word

theorem tagFindFrom_end (done : buflen ≤ pos) :
    tagFindFrom e buf buflen tagId pos = .error (.error .enoent) := by
  rw [tagFindFrom, if_neg (by omega)]

/-- One node. -/
theorem tagFindFrom_node {node : Nat} (inside : pos < buflen)
    (word : (readWord e buf pos : Checked Errno Nat) = .ok node) :
    tagFindFrom e buf buflen tagId pos =
      if node = 0 then .error (.error .enoent)
      else if tagId = node % 2 ^ 16 then
        if buflen ≤ pos + 4 then .error (.error .enoent)
        else .ok ((pos + 4) % 2 ^ 16, node / 2 ^ 16)
      else tagFindFrom e buf buflen tagId (pos + 4 + alignU16 (node / 2 ^ 16)) := by
  rw [tagFindFrom, if_pos inside, word]

theorem tagFindFrom_ok_iff {place : Nat × Nat} : tagFindFrom e buf buflen tagId pos = .ok place ↔
    ∃ ofs len, Leads e buf buflen tagId pos ofs len ∧ place = (ofs % 2 ^ 16, len) := by
  constructor
  · intro found
    fun_induction tagFindFrom e buf buflen tagId pos with
    | case4 pos inside node word id len notNull same more =>
      cases found
      exact ⟨_, _, .here word notNull same (by omega), rfl⟩
    | case5 pos inside node word id len notNull other ih =>
      obtain ⟨ofs, len, leads, same⟩ := ih found
      exact ⟨ofs, len, .on inside word notNull other leads, same⟩
    | case1 | case2 | case3 | case6 => cases found
  · rintro ⟨ofs, len, leads, rfl⟩
    induction leads with
    | here word notNull same inside =>
      rw [tagFindFrom_node (by omega) word, if_neg notNull, if_pos same, if_neg (by omega)]
    | on inside word notNull other _ ih =>
      rw [tagFindFrom_node inside word, if_neg notNull, if_neg other]
      exact ih

theorem tagFindFrom_found_iff : (∃ place, tagFindFrom e buf buflen tagId pos = .ok place) ↔
    ∃ ofs len, Leads e buf buflen tagId pos ofs len := by
  simp only [tagFindFrom_ok_iff]
  constructor
  · rintro ⟨place, ofs, len, leads, -⟩
    exact ⟨ofs, len, leads⟩
  · rintro ⟨ofs, len, leads⟩
    exact ⟨_, ofs, len, leads, rfl⟩

theorem tagFindFrom_outside_iff :
    Outside (tagFindFrom e buf buflen tagId pos) ↔ LeadsOut e buf buflen tagId pos := by
  constructor
  · intro outside
    fun_induction tagFindFrom e buf buflen tagId pos with
    | case1 pos inside fault word =>
      refine .here inside ?_
      by_contra there
      rw [readWord_inside (by omega)] at word
      cases word
    | case5 pos inside node word id len notNull other ih =>
      exact .on inside word notNull other (ih outside)
    | case2 | case3 | case4 | case6 => cases outside
  · intro leads
    induction leads with
    | here inside outside =>
      rw [tagFindFrom, if_pos inside, readWord_outside outside]
      exact outside_outside
    | on inside word notNull other _ ih =>
      rw [tagFindFrom_node inside word, if_neg notNull, if_neg other]
      exact ih

/-- The tag that ends the search of a list: one with this identification, or a long one. -/
def Tag.Ends (tagId : Nat) (tag : Tag) : Prop := tag.id = tagId ∨ tag.Long

instance (tagId : Nat) (tag : Tag) : Decidable (tag.Ends tagId) :=
  inferInstanceAs (Decidable (_ ∨ _))

/-- The search goes through a list up to the tag that ends it. -/
theorem tagFindFrom_list (list : TagList e buf pos tags) :
    tagFindFrom e buf buf.length tagId pos =
      match tags.find? (·.Ends tagId) with
      | none => .error (.error .enoent)
      | some tag =>
        if tag.id = tagId then
          if tag.ofs < buf.length then .ok (tag.ofs % 2 ^ 16, tag.len)
          else .error (.error .enoent)
        else tagFindFrom e buf buf.length tagId tag.ofs := by
  induction list with
  | atEnd done => exact tagFindFrom_end done
  | null node =>
    have bounds := readWord_bounds node
    rw [tagFindFrom_node (by omega) node, if_pos rfl]
    rfl
  | @node pos id len later node notNull idFits lenFits inside rest ih =>
    have low : (id + 2 ^ 16 * len) % 2 ^ 16 = id := by omega
    have high : (id + 2 ^ 16 * len) / 2 ^ 16 = len := by omega
    rw [tagFindFrom_node (by omega) node, if_neg notNull, low, high]
    by_cases same : id = tagId
    · rw [List.find?_cons_of_pos (by simp [Tag.Ends, same])]
      simp only [same, if_true]
      split <;> rename_i more
      · rw [if_neg (by omega)]
      · rw [if_pos (by omega)]
    · rw [if_neg (Ne.symm same)]
      by_cases long : 65532 < len
      · have wraps : alignU16 len = 0 := by unfold alignU16; omega
        rw [List.find?_cons_of_pos (by simp [Tag.Ends, Tag.Long, long])]
        simp only [same, if_false, wraps, Nat.add_zero]
      · have aligned : alignU16 len = (len + 3) / 4 * 4 := by unfold alignU16; omega
        rw [List.find?_cons_of_neg (by simp [Tag.Ends, Tag.Long, same, long]), aligned, ih]

/-- The tags of a list follow each other. -/
theorem TagList.sorted (list : TagList e buf pos tags) :
    (∀ tag ∈ tags, pos + 4 ≤ tag.ofs ∧ tag.ofs + tag.len ≤ buf.length) ∧
      tags.Pairwise fun tag later => tag.ofs + tag.len + 4 ≤ later.ofs := by
  induction list with
  | atEnd _ | null _ => simp
  | @node pos id len later node notNull idFits lenFits inside rest ih =>
    obtain ⟨bounds, sorted⟩ := ih
    constructor
    · intro tag mem
      rcases List.mem_cons.mp mem with rfl | mem
      · exact ⟨Nat.le_refl _, inside⟩
      · have behind := bounds tag mem
        omega
    · refine List.pairwise_cons.mpr ⟨?_, sorted⟩
      intro tag mem
      have behind := (bounds tag mem).1
      dsimp only
      omega

theorem find?_holds {P : Tag → Prop} [DecidablePred P] {tags : List Tag} {tag : Tag}
    (first : tags.find? (fun tag => decide (P tag)) = some tag) : P tag := by
  simpa using List.find?_some first

/-- What is found by a condition is found by a stronger one that it meets. -/
theorem find?_of_imp {p q : Tag → Bool} {tags : List Tag} {tag : Tag} (stronger : ∀ tag, q tag → p tag)
    (first : tags.find? p = some tag) (holds : q tag) : tags.find? q = some tag := by
  obtain ⟨-, before, after, split, none⟩ := List.find?_eq_some_iff_append.mp first
  refine List.find?_eq_some_iff_append.mpr ⟨holds, before, after, split, ?_⟩
  intro earlier mem
  have refuses := none earlier mem
  cases here : q earlier with
  | false => rfl
  | true =>
    rw [stronger earlier here] at refuses
    cases refuses

/-- Before the tag that ends the search there is no such tag, and behind it all start behind its
payload. -/
theorem TagList.around (list : TagList e buf pos tags) (ends : tags.find? (·.Ends tagId) = some tag)
    {other : Tag} (mem : other ∈ tags) (isEnd : other.Ends tagId) :
    other = tag ∨ tag.ofs + tag.len + 4 ≤ other.ofs := by
  obtain ⟨-, before, after, split, none⟩ := List.find?_eq_some_iff_append.mp ends
  rw [split] at mem
  rcases List.mem_append.mp mem with earlier | mem
  · have refuses := none other earlier
    simp [isEnd] at refuses
  · rcases List.mem_cons.mp mem with rfl | later
    · exact .inl rfl
    · obtain ⟨-, sorted⟩ := split ▸ list.sorted
      exact .inr ((List.pairwise_cons.mp (List.pairwise_append.mp sorted).2.1).1 other later)

theorem tagFindFrom_lt {place : Nat × Nat}
    (found : tagFindFrom e buf buflen tagId pos = .ok place) : place.1 < 2 ^ 16 := by
  obtain ⟨ofs, len, -, rfl⟩ := tagFindFrom_ok_iff.mp found
  exact Nat.mod_lt _ (by decide)

/-- A tag that is there is found if it starts before 65536. -/
theorem tagFindFrom_has (list : TagList e buf pos tags)
    (first : tags.find? (·.Has buf tagId) = some tag) :
    tagFindFrom e buf buf.length tagId pos = .ok (tag.ofs, tag.len) ↔ tag.ofs < 2 ^ 16 := by
  constructor
  · exact fun found => tagFindFrom_lt found
  · intro near
    obtain ⟨same, inside⟩ : tag.Has buf tagId := find?_holds first
    have mem := List.mem_of_find?_eq_some first
    have some' : (tags.find? (·.Ends tagId)).isSome = true :=
      List.find?_isSome.mpr ⟨tag, mem, decide_eq_true (.inl same)⟩
    obtain ⟨end_, ends⟩ := Option.isSome_iff_exists.mp some'
    have bounds := (list.sorted.1 end_ (List.mem_of_find?_eq_some ends)).2
    rw [tagFindFrom_list list, ends]
    dsimp only
    rcases list.around ends mem (.inl same) with rfl | behind
    · rw [if_pos same, if_pos inside, Nat.mod_eq_of_lt near]
    · by_cases own : end_.id = tagId
      · have has : end_.Has buf tagId := ⟨own, by omega⟩
        have equal := find?_of_imp (q := fun tag => decide (tag.Has buf tagId))
          (fun tag has => decide_eq_true (.inl (of_decide_eq_true has).1)) ends (decide_eq_true has)
        rw [equal] at first
        cases first
        omega
      · have long : end_.Long := (find?_holds ends).resolve_left own
        unfold Tag.Long at long
        omega

/-- A tag that is not there is found if the payload of the first long tag leads to one. -/
theorem tagFindFrom_missing (list : TagList e buf pos tags)
    (missing : ∀ tag ∈ tags, ¬tag.Has buf tagId) :
    (∃ place, tagFindFrom e buf buf.length tagId pos = .ok place) ↔
      ∃ long, tags.find? (·.Long) = some long ∧
        ∃ ofs len, Leads e buf buf.length tagId long.ofs ofs len := by
  rw [tagFindFrom_list list]
  cases ends : tags.find? (·.Ends tagId) with
  | none =>
    refine iff_of_false (by rintro ⟨place, found⟩; cases found) ?_
    rintro ⟨long, first, -⟩
    have isLong : long.Long := find?_holds first
    exact List.find?_eq_none.mp ends long (List.mem_of_find?_eq_some first)
      (decide_eq_true (.inr isLong))
  | some end_ =>
    have mem := List.mem_of_find?_eq_some ends
    dsimp only
    by_cases own : end_.id = tagId
    · have outside : buf.length ≤ end_.ofs := by
        by_contra inside
        exact missing end_ mem ⟨own, by omega⟩
      rw [if_pos own, if_neg (by omega)]
      refine iff_of_false (by rintro ⟨place, found⟩; cases found) ?_
      rintro ⟨long, first, -⟩
      have isLong : long.Long := find?_holds first
      have bounds := (list.sorted.1 long (List.mem_of_find?_eq_some first)).2
      have place := list.around ends (List.mem_of_find?_eq_some first) (.inr isLong)
      unfold Tag.Long at isLong
      rcases place with rfl | behind <;> omega
    · have long : end_.Long := (find?_holds ends).resolve_left own
      have first := find?_of_imp (q := fun tag => decide tag.Long)
        (fun tag long => decide_eq_true (.inr (of_decide_eq_true long))) ends (decide_eq_true long)
      rw [if_neg own, tagFindFrom_found_iff, first]
      simp

end Find

section Exact

variable {e : Endian} {buf : List UInt8} {tagId : Nat} {tags : List Tag}

/-- What the search needs for a list and an identification. -/
structure Findable (e : Endian) (buf : List UInt8) (tags : List Tag) (tagId : Nat) : Prop where
  /-- The first such tag starts before 65536. -/
  near : ∀ tag, tags.find? (·.Has buf tagId) = some tag → tag.ofs < 2 ^ 16
  /-- If there is none, the payload of the first long tag does not lead to such a node. -/
  hidden : (∀ tag ∈ tags, ¬tag.Has buf tagId) →
    ∀ long, tags.find? (·.Long) = some long →
      ∀ ofs len, ¬Leads e buf buf.length tagId long.ofs ofs len

/-- The search is exact on a list of tag nodes if and only if it needs no more than 16 bits. -/
theorem tagFind_exact_iff (given : tagId ≠ 0) (list : TagList e buf 0 tags) :
    FindsExactly e buf tags tagId ↔ Findable e buf tags tagId := by
  have search : routerbootTagFind e buf buf.length tagId = tagFindFrom e buf buf.length tagId 0 := if_neg given
  by_cases missing : ∀ tag ∈ tags, ¬tag.Has buf tagId
  · have none : tags.find? (·.Has buf tagId) = none := by simpa using missing
    have found := tagFindFrom_missing list missing
    constructor
    · intro exactly
      refine ⟨fun tag first => by simp [none] at first, fun _ long first ofs len leads => ?_⟩
      have place := found.mpr ⟨long, first, ofs, len, leads⟩
      rw [← search] at place
      obtain ⟨tag, mem, has⟩ := exactly.found_iff.mp place
      exact missing tag mem has
    · intro findable
      refine ⟨iff_of_false ?_ ?_, fun tag first => by simp [none] at first⟩
      · rw [search, found]
        rintro ⟨long, first, ofs, len, leads⟩
        exact findable.hidden missing long first ofs len leads
      · rintro ⟨tag, mem, has⟩
        exact missing tag mem has
  · have some' : (tags.find? (·.Has buf tagId)).isSome = true := by
      rw [List.find?_isSome]
      simpa using missing
    obtain ⟨tag, first⟩ := Option.isSome_iff_exists.mp some'
    have found := tagFindFrom_has list first
    have has : tag.Has buf tagId := find?_holds first
    have mem := List.mem_of_find?_eq_some first
    constructor
    · intro exactly
      have reported := exactly.first tag first
      rw [search, found] at reported
      refine ⟨fun tag' first' => ?_, fun none => absurd has (none tag mem)⟩
      rw [first] at first'
      cases first'
      exact reported
    · intro findable
      have reported := found.mpr (findable.near tag first)
      rw [← search] at reported
      refine ⟨iff_of_true ⟨_, reported⟩ ⟨tag, mem, has⟩, fun tag' first' => ?_⟩
      rw [first] at first'
      cases first'
      exact reported

end Exact

/-- Two tags, the second of which has one byte and three that align it. -/
theorem tagFind_exact_two :
    FindsExactly .little [1, 0, 4, 0, 9, 9, 9, 9, 2, 0, 1, 0, 7, 0, 0, 0] [⟨1, 4, 4⟩, ⟨2, 12, 1⟩] 2 := by
  have list : TagList .little [1, 0, 4, 0, 9, 9, 9, 9, 2, 0, 1, 0, 7, 0, 0, 0] 0
      [⟨1, 4, 4⟩, ⟨2, 12, 1⟩] := by
    refine .node rfl (by decide) (by decide) (by decide) (by decide) ?_
    exact .node rfl (by decide) (by decide) (by decide) (by decide) (.atEnd (by decide))
  refine (tagFind_exact_iff (by decide) list).mpr ⟨?_, ?_⟩
  · decide
  · intro _ long first
    cases first

/-- A tag of 65533 bytes, then some zeros, and a tag of four bytes. -/
def longTag (zeros : Nat) : List UInt8 :=
  [1, 0, 0xfd, 0xff] ++ (List.replicate zeros 0 ++ [2, 0, 4, 0, 9, 9, 9, 9])

theorem length_longTag (zeros : Nat) : (longTag zeros).length = zeros + 12 := by
  simp [longTag]

theorem longTag_first (zeros : Nat) :
    (readWord .little (longTag zeros) 0 : Checked Errno Nat) = .ok (1 + 2 ^ 16 * 65533) := by
  rw [readWord_inside (by rw [length_longTag]; omega)]
  change Except.ok (Endian.little.number [1, 0, 0xfd, 0xff]) = _
  decide

theorem longTag_zero (zeros : Nat) :
    (readWord .little (longTag (zeros + 4)) 4 : Checked Errno Nat) = .ok 0 := by
  rw [readWord_inside (by rw [length_longTag]; omega)]
  rfl

theorem longTag_second (zeros : Nat) :
    (readWord .little (longTag zeros) (4 + zeros) : Checked Errno Nat) = .ok (2 + 2 ^ 16 * 4) := by
  have second : (readWord .little (List.replicate zeros 0 ++ [2, 0, 4, 0, 9, 9, 9, 9])
      ((List.replicate zeros (0 : UInt8)).length + 0) : Checked Errno Nat) = _ :=
    readWord_append _ 0
  rw [List.length_replicate, Nat.add_zero] at second
  exact (readWord_append [1, 0, 0xfd, 0xff] zeros).trans second

/-- The second tag is not found: the search ends at the first zero of the first one. -/
theorem tagFind_not_exact :
    TagList .little (longTag 65536) 0 [⟨1, 4, 65533⟩, ⟨2, 65544, 4⟩] ∧
      ¬FindsExactly .little (longTag 65536) [⟨1, 4, 65533⟩, ⟨2, 65544, 4⟩] 2 := by
  have size := length_longTag 65536
  have list : TagList .little (longTag 65536) 0 [⟨1, 4, 65533⟩, ⟨2, 65544, 4⟩] := by
    refine .node (longTag_first _) (by decide) (by decide) (by decide) (by omega) ?_
    refine .node (longTag_second _) (by decide) (by decide) (by decide) (by omega) ?_
    exact .atEnd (by omega)
  refine ⟨list, fun exactly => ?_⟩
  obtain ⟨place, found⟩ := exactly.found_iff.mpr
    ⟨⟨2, 65544, 4⟩, by simp, rfl, show 65544 < (longTag 65536).length by omega⟩
  have stops : routerbootTagFind .little (longTag 65536) (longTag 65536).length 2 =
      .error (.error .enoent) := by
    rw [routerbootTagFind, if_neg (by decide), tagFindFrom_node (by omega) (longTag_first _),
      if_neg (by decide), if_neg (by decide)]
    exact (tagFindFrom_node (by omega) (longTag_zero _)).trans (if_pos rfl)
  rw [stops] at found
  cases found

end FirewallCore.Mikrotik
