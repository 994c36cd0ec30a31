import FirewallCore.Lib.Dealing

/-!
The IDs of the filter lists when filtering starts (`filtering/idgenerator.go`, `filter.go` and
`New` of `filtering.go`).

One counter numbers the lists without an ID, and then replaces IDs that a list repeats. Each list
of filters is looked at alone, and from its start.
-/

namespace FirewallCore.Filtering.IdGenerator

open FirewallCore.Lib

/-- `FilterYAML`. What `load` reads from the file of an enabled filter is left out. -/
structure FilterYAML where
  url : String
  id : Int
  deriving DecidableEq, Repr

/-! ### The generator -/

/-- `next`: the counter, an `int32`, which is also the new ID. `none` where it panics. -/
def next (current : Int) : Option Int :=
  let id32 := current + 1
  if id32 < 0 ∨ 2 ^ 31 ≤ id32 then none else some id32

theorem next_some {current id : Int} (given : next current = some id) :
    id = current + 1 ∧ id < 2 ^ 31 := by
  unfold next at given
  dsimp only at given
  split at given
  · cases given
  · rename_i inside
    cases given
    exact ⟨rfl, not_le.mp fun high => inside (.inr high)⟩

/-- The loop that looks for an ID which is not in the set. -/
def nextUnused (set : Finset Int) (current : Int) : Option Int :=
  match _given : next current with
  | none => none
  | some newID => if newID ∈ set then nextUnused set newID else some newID
termination_by (2 ^ 31 - current).toNat
decreasing_by
  have after := next_some _given
  omega

/-- The ID of a filter, or else a new one, with the counter. -/
def idOrNext (current id : Int) : Option (Int × Int) :=
  if id = 0 then (next current).map fun id => (id, id) else some (id, current)

/-- The ID if it is not in the set, or else a new one that is not, with the counter. -/
def idOrUnused (set : Finset Int) (current id : Int) : Option (Int × Int) :=
  if id ∉ set then some (id, current) else (nextUnused set current).map fun newID => (newID, newID)

/-- The loop of `fix`: the filters as they are left, and the counter. -/
def fixLoop : Finset Int → Int → List FilterYAML → Option (List FilterYAML × Int)
  | _, current, [] => some ([], current)
  | set, current, f :: flts => do
    let (id, current) ← idOrNext current f.id
    let (id, current) ← idOrUnused set current id
    let (flts, current) ← fixLoop (insert id set) current flts
    some ({ f with id := id } :: flts, current)

/-- `fix`. -/
def fix (current : Int) (flts : List FilterYAML) : Option (List FilterYAML × Int) :=
  fixLoop ∅ current flts

/-! ### Loading -/

/-- `loadFilters`. -/
def loadFilters : Int → List FilterYAML → Option (List FilterYAML × Int)
  | current, [] => some ([], current)
  | current, filter :: array => do
    let (id, current) ← idOrNext current filter.id
    let (array, current) ← loadFilters current array
    some ({ filter with id := id } :: array, current)

/-- The loop of `deduplicateFilters`. -/
def deduplicateLoop : Finset String → List FilterYAML → List FilterYAML
  | _, [] => []
  | urls, filter :: filters =>
    if filter.url ∉ urls then filter :: deduplicateLoop (insert filter.url urls) filters
    else deduplicateLoop urls filters

/-- `deduplicateFilters`. -/
def deduplicateFilters (filters : List FilterYAML) : List FilterYAML := deduplicateLoop ∅ filters

/-- The loading sequence of `New` for the block filters and the allow filters. -/
def loadAll (seed : Int) (filters whitelistFilters : List FilterYAML) :
    Option (List FilterYAML × List FilterYAML) := do
  let (filters, current) ← loadFilters seed filters
  let (whitelistFilters, current) ← loadFilters current whitelistFilters
  let (filters, current) ← fix current (deduplicateFilters filters)
  let (whitelistFilters, _) ← fix current (deduplicateFilters whitelistFilters)
  some (filters, whitelistFilters)

/-! ### What is meant -/

/-- Filters with their numbers: those without an ID are numbered from the counter on. -/
def numbered : Int → List FilterYAML → List FilterYAML
  | _, [] => []
  | current, f :: flts =>
    if f.id = 0 then { f with id := current + 1 } :: numbered (current + 1) flts
    else f :: numbered current flts

/-- How many filters have no ID. -/
def unnumbered (flts : List FilterYAML) : Nat := flts.countP fun f => f.id = 0

/-- The IDs of a list. -/
def ids (flts : List FilterYAML) : Finset Int := (flts.map (·.id)).toFinset.erase 0

/-- How many filters repeat the ID of another one. -/
def repeats (flts : List FilterYAML) : Nat := flts.length - (ids flts).card

/-- The counter after each repeat is dealt the next number that is not an ID of the list. -/
def lastDealt (current : Int) (flts : List FilterYAML) : Int :=
  dealt (ids flts) current (repeats flts)

/-- The number is an ID of the list, or is dealt to a repeat of it. -/
def Taken (current : Int) (flts : List FilterYAML) (id : Int) : Prop :=
  id ∈ ids flts ∨ current < id ∧ id ≤ lastDealt current flts

/-- The first filter with its URL, whose ID no other filter of the configuration has. -/
structure Own (all before : List FilterYAML) (f : FilterYAML) : Prop where
  first : ∀ g ∈ before, g.url ≠ f.url
  given : f.id ≠ 0
  unique : (all.map (·.id)).count f.id = 1

/-- The filters have IDs of their own, and keep those that were so. -/
structure NamesOne (filters whitelistFilters : List FilterYAML)
    (loaded : List FilterYAML × List FilterYAML) : Prop where
  distinct : ((loaded.1 ++ loaded.2).map (·.id)).Nodup
  nonzero : ∀ f ∈ loaded.1 ++ loaded.2, f.id ≠ 0
  kept : ∀ before f after, filters = before ++ f :: after →
    Own (filters ++ whitelistFilters) before f → f ∈ loaded.1
  keptAllowed : ∀ before f after, whitelistFilters = before ++ f :: after →
    Own (filters ++ whitelistFilters) before f → f ∈ loaded.2

/-- What the numbers have to avoid: `current` is the counter after all filters are numbered. -/
structure Clear (seed : Int) (filters whitelistFilters : List FilterYAML) (current : Int) : Prop where
  /-- The two lists take different numbers. -/
  apart : ∀ id, Taken current (deduplicateFilters (numbered seed filters)) id →
    ¬Taken (lastDealt current (deduplicateFilters (numbered seed filters)))
      (deduplicateFilters (numbered (seed + unnumbered filters) whitelistFilters)) id
  /-- The counter does not start before 0. -/
  nonzero : ¬Taken current (deduplicateFilters (numbered seed filters)) 0 ∧
    ¬Taken (lastDealt current (deduplicateFilters (numbered seed filters)))
      (deduplicateFilters (numbered (seed + unnumbered filters) whitelistFilters)) 0
  /-- The filters before one do not take its ID. -/
  free : ∀ before f after, filters = before ++ f :: after →
    Own (filters ++ whitelistFilters) before f →
      ¬Taken current (deduplicateFilters (numbered seed before)) f.id
  freeAllowed : ∀ before f after, whitelistFilters = before ++ f :: after →
    Own (filters ++ whitelistFilters) before f →
      ¬Taken (lastDealt current (deduplicateFilters (numbered seed filters)))
        (deduplicateFilters (numbered (seed + unnumbered filters) before)) f.id

/-! ### Loading -/

section Loading

variable {current current' : Int} {flts flts' before after : List FilterYAML} {f : FilterYAML}

theorem loadFilters_some (loaded : loadFilters current flts = some (flts', current')) :
    flts' = numbered current flts ∧ current' = current + unnumbered flts := by
  induction flts generalizing current flts' current' with
  | nil =>
    cases loaded
    exact ⟨rfl, (Int.add_zero _).symm⟩
  | cons f flts ih =>
    unfold loadFilters at loaded
    obtain ⟨⟨id, next'⟩, numbers, rest⟩ := Option.bind_eq_some_iff.mp loaded
    obtain ⟨⟨later, last⟩, loads, done⟩ := Option.bind_eq_some_iff.mp rest
    obtain ⟨same, counts⟩ := ih loads
    cases done
    unfold numbered unnumbered
    rw [List.countP_cons]
    unfold idOrNext at numbers
    by_cases none : f.id = 0
    · rw [if_pos none] at numbers
      obtain ⟨newID, given, equal⟩ := Option.map_eq_some_iff.mp numbers
      cases equal
      obtain ⟨rfl, -⟩ := next_some given
      rw [if_pos none, same, counts]
      refine ⟨rfl, ?_⟩
      simp only [none, decide_true, if_true, unnumbered]
      push_cast
      omega
    · rw [if_neg none] at numbers
      cases numbers
      rw [if_neg none, same, counts]
      exact ⟨rfl, by simp [none, unnumbered]⟩

theorem numbered_append : numbered current (before ++ after) =
    numbered current before ++ numbered (current + unnumbered before) after := by
  induction before generalizing current with
  | nil => simp [numbered, unnumbered]
  | cons f before ih =>
    rw [List.cons_append, numbered, numbered, unnumbered, List.countP_cons]
    by_cases none : f.id = 0
    · rw [if_pos none, if_pos none, ih, List.cons_append]
      simp only [none, decide_true, if_true, unnumbered]
      push_cast
      rw [Int.add_assoc, Int.add_comm 1]
    · rw [if_neg none, if_neg none, ih, List.cons_append]
      simp [none, unnumbered]

theorem map_url_numbered : (numbered current flts).map (·.url) = flts.map (·.url) := by
  induction flts generalizing current with
  | nil => rfl
  | cons f flts ih =>
    rw [numbered]
    split
    · rw [List.map_cons, List.map_cons, ih]
    · rw [List.map_cons, List.map_cons, ih]

/-! ### URLs -/

theorem deduplicateLoop_append {urls : Finset String} :
    deduplicateLoop urls (before ++ after) =
      deduplicateLoop urls before ++ deduplicateLoop (urls ∪ (before.map (·.url)).toFinset) after := by
  induction before generalizing urls with
  | nil => simp [deduplicateLoop]
  | cons f before ih =>
    rw [List.cons_append, deduplicateLoop, deduplicateLoop]
    split
    · rw [ih, List.cons_append, List.map_cons, List.toFinset_cons, Finset.insert_union,
        Finset.union_insert]
    · rename_i listed
      rw [not_not] at listed
      rw [ih, List.map_cons, List.toFinset_cons, Finset.union_insert,
        Finset.insert_eq_of_mem (Finset.mem_union_left _ listed)]

theorem deduplicateLoop_urls {urls : Finset String} :
    ((deduplicateLoop urls flts).map (·.url)).Nodup ∧
      ∀ f ∈ deduplicateLoop urls flts, f.url ∉ urls := by
  induction flts generalizing urls with
  | nil => exact ⟨List.nodup_nil, fun f none => nomatch none⟩
  | cons f flts ih =>
    rw [deduplicateLoop]
    split
    · rename_i new
      obtain ⟨distinct, apart⟩ := @ih (insert f.url urls)
      rw [List.map_cons, List.nodup_cons]
      refine ⟨⟨?_, distinct⟩, ?_⟩
      · intro listed
        obtain ⟨g, member, same⟩ := List.mem_map.mp listed
        exact apart g member (Finset.mem_insert.mpr (.inl same))
      · intro g member
        rcases List.mem_cons.mp member with rfl | later
        · exact new
        · exact fun old => apart g later (Finset.mem_insert_of_mem old)
    · exact ih

theorem nodup_urls : ((deduplicateFilters flts).map (·.url)).Nodup := deduplicateLoop_urls.1

/-- The first filter with its URL is between those that are left of the others. -/
theorem deduplicate_numbered_append (first : ∀ g ∈ before, g.url ≠ f.url) (given : f.id ≠ 0) :
    ∃ rest, deduplicateFilters (numbered current (before ++ f :: after)) =
      deduplicateFilters (numbered current before) ++ f :: rest := by
  have new : f.url ∉ (∅ : Finset String) ∪ ((numbered current before).map (·.url)).toFinset := by
    rw [map_url_numbered, Finset.empty_union, List.mem_toFinset]
    intro listed
    obtain ⟨g, member, same⟩ := List.mem_map.mp listed
    exact first g member same
  rw [deduplicateFilters, numbered_append, numbered, if_neg given, deduplicateLoop_append,
    deduplicateLoop, if_pos new]
  exact ⟨_, rfl⟩

end Loading

/-! ### Repeats -/

section Repeats

variable {set : Finset Int} {current current' id id' newID : Int}
  {flts flts' before after : List FilterYAML} {f : FilterYAML}

theorem mem_ids : id ∈ ids flts ↔ id ≠ 0 ∧ ∃ f ∈ flts, f.id = id := by
  rw [ids, Finset.mem_erase, List.mem_toFinset, List.mem_map]

theorem mem_ids_cons : id ∈ ids (f :: flts) ↔ id ≠ 0 ∧ f.id = id ∨ id ∈ ids flts := by
  rw [mem_ids, mem_ids, List.exists_mem_cons_iff, and_or_left]

theorem nextUnused_some (given : nextUnused set current = some newID) :
    newID = nextUntaken set current := by
  fun_induction nextUnused set current with
  | case1 current none => cases given
  | case2 current passed step listed ih =>
    obtain ⟨rfl, -⟩ := next_some step
    rw [ih given, nextUntaken_succ_of_mem listed]
  | case3 current found step unlisted =>
    obtain ⟨rfl, -⟩ := next_some step
    cases given
    exact (nextUntaken_of_notMem unlisted).symm

/-- A filter keeps its ID, or gets the next one that is not in the set. -/
theorem idOrUnused_cases {between : Int} (numbers : idOrNext current f.id = some (id, between))
    (unused : idOrUnused set between id = some (id', current')) :
    (f.id ≠ 0 ∧ f.id ∉ set ∧ id' = f.id ∧ current' = current) ∨
      ((f.id = 0 ∨ f.id ∈ set) ∧ id' = nextUntaken set current ∧ current' = id') := by
  unfold idOrNext at numbers
  unfold idOrUnused at unused
  split at numbers
  · rename_i none
    right
    obtain ⟨newID, given, equal⟩ := Option.map_eq_some_iff.mp numbers
    cases equal
    obtain ⟨rfl, -⟩ := next_some given
    refine ⟨.inl none, ?_⟩
    split at unused
    · rename_i new
      cases unused
      exact ⟨(nextUntaken_of_notMem new).symm, rfl⟩
    · rename_i listed
      rw [not_not] at listed
      obtain ⟨newID, found, equal⟩ := Option.map_eq_some_iff.mp unused
      cases equal
      rw [nextUnused_some found, nextUntaken_succ_of_mem listed]
      exact ⟨rfl, rfl⟩
  · rename_i some'
    cases numbers
    split at unused
    · rename_i new
      cases unused
      exact .inl ⟨some', new, rfl, rfl⟩
    · rename_i listed
      obtain ⟨newID, found, equal⟩ := Option.map_eq_some_iff.mp unused
      cases equal
      exact .inr ⟨.inr (not_not.mp listed), nextUnused_some found, rfl⟩

/-- What the loop of `fix` leaves: the numbers up to the counter were dealt, or were there. -/
structure Fixed (set : Finset Int) (current : Int) (flts flts' : List FilterYAML)
    (current' : Int) : Prop where
  urls : flts'.map (·.url) = flts.map (·.url)
  distinct : (flts'.map (·.id)).Nodup
  new : ∀ f ∈ flts', f.id ∉ set
  ids : ∀ id, (id ∈ set ∨ ∃ f ∈ flts', f.id = id) ↔
    id ∈ set ∨ id ∈ ids flts ∨ current < id ∧ id ≤ current'
  low : current ≤ current'
  last : current' = current ∨ current' ∉ set ∧ current' ∉ IdGenerator.ids flts
  moves : (∃ f ∈ flts, f.id = 0 ∨ f.id ∈ set) → current < current'

theorem fixLoop_some (done : fixLoop set current flts = some (flts', current')) :
    Fixed set current flts flts' current' := by
  induction flts generalizing set current flts' current' with
  | nil =>
    cases done
    constructor
    · rfl
    · exact List.nodup_nil
    · exact fun f none => nomatch none
    · intro id
      simp [IdGenerator.ids]
    · exact Int.le_refl _
    · exact .inl rfl
    · rintro ⟨f, none, -⟩
      cases none
  | cons f flts ih =>
    unfold fixLoop at done
    obtain ⟨⟨id, between⟩, numbers, rest⟩ := Option.bind_eq_some_iff.mp done
    obtain ⟨⟨id', next'⟩, unused, rest⟩ := Option.bind_eq_some_iff.mp rest
    obtain ⟨⟨later, last⟩, fixes, equal⟩ := Option.bind_eq_some_iff.mp rest
    cases equal
    have fixed := ih fixes
    have given := idOrUnused_cases numbers unused
    have listed : id' ∉ set := by
      rcases given with ⟨-, new, rfl, -⟩ | ⟨-, rfl, -⟩
      · exact new
      · exact nextUntaken_notMem _ _
    have apart : ∀ g ∈ later, g.id ≠ id' ∧ g.id ∉ set := by
      intro g member
      have new := fixed.new g member
      rwa [Finset.mem_insert, not_or] at new
    constructor
    case urls =>
      rw [List.map_cons, List.map_cons, fixed.urls]
    case distinct =>
      rw [List.map_cons, List.nodup_cons, List.mem_map]
      refine ⟨?_, fixed.distinct⟩
      rintro ⟨g, member, same⟩
      exact (apart g member).1 same
    case new =>
      intro g member
      rcases List.mem_cons.mp member with rfl | member
      · exact listed
      · exact (apart g member).2
    case ids =>
      intro i
      have rest := fixed.ids i
      rw [Finset.mem_insert] at rest
      rw [List.exists_mem_cons_iff, mem_ids_cons]
      rcases given with ⟨some', new, rfl, rfl⟩ | ⟨none, rfl, rfl⟩
      · grind
      · have after := lt_nextUntaken set current
        have passed : current < i → i < nextUntaken set current → i ∈ set := mem_of_lt_nextUntaken
        have low := fixed.low
        grind
    case low =>
      have low := fixed.low
      rcases given with ⟨-, -, -, rfl⟩ | ⟨-, rfl, rfl⟩
      · exact low
      · exact (lt_nextUntaken set current).le.trans low
    case last =>
      have ends := fixed.last
      rw [Finset.mem_insert] at ends
      rw [mem_ids_cons]
      rcases given with ⟨some', new, rfl, rfl⟩ | ⟨none, rfl, rfl⟩
      · grind
      · right
        have own : ∀ i ∉ set, ¬(i ≠ 0 ∧ f.id = i) := by
          rintro i free ⟨some', rfl⟩
          exact none.elim some' free
        rcases ends with same | ⟨free, unlisted⟩
        · -- A later filter with the number would be a repeat, and be dealt another one.
          have unlisted : current' ∉ IdGenerator.ids flts := by
            intro later
            obtain ⟨-, g, member, equal⟩ := mem_ids.mp later
            have more := fixed.moves ⟨g, member,
              .inr (Finset.mem_insert.mpr (.inl (equal.trans same)))⟩
            omega
          have free : current' ∉ set := same ▸ nextUntaken_notMem set current
          exact ⟨free, not_or.mpr ⟨own _ free, unlisted⟩⟩
        · rw [not_or] at free
          exact ⟨free.2, not_or.mpr ⟨own _ free.2, unlisted⟩⟩
    case moves =>
      have low := fixed.low
      rcases given with ⟨some', new, -, rfl⟩ | ⟨-, rfl, rfl⟩
      · rintro ⟨g, member, repeated⟩
        rcases List.mem_cons.mp member with rfl | member
        · exact absurd repeated (not_or.mpr ⟨some', new⟩)
        · exact fixed.moves ⟨g, member, repeated.imp_right (Finset.mem_insert_of_mem ·)⟩
      · exact fun _ => (lt_nextUntaken set current).trans_le low

/-- The numbers that a list has after `fix`, and where the counter is. -/
theorem fix_taken (done : fix current flts = some (flts', current')) :
    (∀ id, id ∈ flts'.map (·.id) ↔ Taken current flts id) ∧ current' = lastDealt current flts := by
  have fixed := fixLoop_some done
  have members : ∀ id, id ∈ flts'.map (·.id) ↔ id ∈ ids flts ∨ current < id ∧ id ≤ current' := by
    intro id
    have ids := fixed.ids id
    simpa using ids
  have sizes : flts'.length = flts.length := by
    rw [← List.length_map (·.url), fixed.urls, List.length_map]
  have split : (flts'.map (·.id)).toFinset = ids flts ∪ (Finset.Ioc current current' \ ids flts) := by
    ext id
    rw [List.mem_toFinset, members, Finset.union_sdiff_self_eq_union, Finset.mem_union,
      Finset.mem_Ioc]
  have count : (Finset.Ioc current current' \ ids flts).card = repeats flts := by
    have total := Finset.card_union_of_disjoint
      (Finset.disjoint_sdiff : Disjoint (ids flts) (Finset.Ioc current current' \ ids flts))
    rw [← split, List.toFinset_card_of_nodup fixed.distinct, List.length_map, sizes] at total
    unfold repeats
    omega
  have last := eq_dealt count fixed.low (fixed.last.imp_right And.right)
  refine ⟨fun id => ?_, last⟩
  rw [members, last]
  rfl

/-- A filter keeps its ID exactly if the filters before it do not take the number. -/
theorem fixLoop_split (given : f.id ≠ 0)
    (done : fixLoop set current (before ++ f :: after) = some (flts', current')) :
    ∃ first middle id' last, fixLoop set current before = some (first, middle) ∧
      flts' = first ++ { f with id := id' } :: last ∧
      (id' = f.id ↔ f.id ∉ set ∧ ∀ g ∈ first, g.id ≠ f.id) := by
  induction before generalizing set current flts' with
  | nil =>
    rw [List.nil_append, fixLoop] at done
    obtain ⟨⟨id, between⟩, numbers, rest⟩ := Option.bind_eq_some_iff.mp done
    obtain ⟨⟨id', next'⟩, unused, rest⟩ := Option.bind_eq_some_iff.mp rest
    obtain ⟨⟨last, _⟩, -, equal⟩ := Option.bind_eq_some_iff.mp rest
    cases equal
    refine ⟨[], current, id', last, rfl, rfl, ?_⟩
    rcases idOrUnused_cases numbers unused with ⟨-, new, rfl, -⟩ | ⟨repeated, rfl, -⟩
    · exact iff_of_true rfl ⟨new, fun g none => nomatch none⟩
    · have listed := repeated.resolve_left given
      apply iff_of_false
      · intro same
        exact nextUntaken_notMem set current (same ▸ listed)
      · exact fun new => new.1 listed
  | cons g before ih =>
    rw [List.cons_append, fixLoop] at done
    obtain ⟨⟨id, between⟩, numbers, rest⟩ := Option.bind_eq_some_iff.mp done
    obtain ⟨⟨id₁, next'⟩, unused, rest⟩ := Option.bind_eq_some_iff.mp rest
    obtain ⟨⟨later, _⟩, fixes, equal⟩ := Option.bind_eq_some_iff.mp rest
    cases equal
    obtain ⟨first, middle, id', last, fixed, rfl, keeps⟩ := ih fixes
    refine ⟨{ g with id := id₁ } :: first, middle, id', last, ?_, rfl, ?_⟩
    · rw [fixLoop]
      simp only [numbers, unused, fixed, Option.bind_eq_bind, Option.bind_some]
    · rw [keeps, Finset.mem_insert, List.forall_mem_cons]
      grind

/-- A filter of a list without repeated URLs is left as it is exactly if the filters before it
do not take its ID. -/
theorem mem_fix_iff (given : f.id ≠ 0) (urls : ((before ++ f :: after).map (·.url)).Nodup)
    (done : fix current (before ++ f :: after) = some (flts', current')) :
    f ∈ flts' ↔ ¬Taken current before f.id := by
  have fixed := fixLoop_some done
  obtain ⟨first, middle, id', last, fixes, rfl, keeps⟩ := fixLoop_split given done
  have taken := (fix_taken fixes).1 f.id
  rw [List.mem_map] at taken
  have only : f ∈ first ++ { f with id := id' } :: last ↔ id' = f.id := by
    rw [← fixed.urls, List.map_append, List.map_cons, List.nodup_append, List.nodup_cons] at urls
    obtain ⟨-, ⟨behind, -⟩, ahead⟩ := urls
    rw [List.mem_append, List.mem_cons]
    constructor
    · rintro (member | same | member)
      · exact absurd rfl (ahead _ (List.mem_map_of_mem member) _ (List.mem_cons_self ..))
      · exact (congrArg FilterYAML.id same).symm
      · exact absurd (List.mem_map_of_mem member) behind
    · rintro rfl
      exact .inr (.inl rfl)
  rw [only, keeps, ← taken]
  simp

end Repeats

/-! ### The loading sequence -/

variable {seed : Int} {filters whitelistFilters : List FilterYAML}
  {loaded : List FilterYAML × List FilterYAML}

theorem mem_loaded_iff {current current' start : Int} {flts before after : List FilterYAML}
    {f : FilterYAML} (first : ∀ g ∈ before, g.url ≠ f.url) (given : f.id ≠ 0)
    (done : fix current (deduplicateFilters (numbered start (before ++ f :: after))) =
      some (flts, current')) :
    f ∈ flts ↔ ¬Taken current (deduplicateFilters (numbered start before)) f.id := by
  have urls := @nodup_urls (numbered start (before ++ f :: after))
  obtain ⟨rest, split⟩ :=
    @deduplicate_numbered_append start before after f first given
  rw [split] at done urls
  exact mem_fix_iff given urls done

/-- The IDs after the loading are as they are meant exactly if the numbers that are dealt avoid
those of the configuration. -/
theorem loadAll_namesOne_iff (done : loadAll seed filters whitelistFilters = some loaded) :
    NamesOne filters whitelistFilters loaded ↔
      Clear seed filters whitelistFilters
        (seed + unnumbered filters + unnumbered whitelistFilters) := by
  unfold loadAll at done
  obtain ⟨⟨block, first⟩, loads, rest⟩ := Option.bind_eq_some_iff.mp done
  obtain ⟨⟨allow, second⟩, loads', rest⟩ := Option.bind_eq_some_iff.mp rest
  obtain ⟨⟨block', third⟩, fixes, rest⟩ := Option.bind_eq_some_iff.mp rest
  obtain ⟨⟨allow', fourth⟩, fixes', equal⟩ := Option.bind_eq_some_iff.mp rest
  cases equal
  obtain ⟨rfl, rfl⟩ := loadFilters_some loads
  obtain ⟨rfl, rfl⟩ := loadFilters_some loads'
  obtain ⟨takes, rfl⟩ := fix_taken fixes
  obtain ⟨takes', -⟩ := fix_taken fixes'
  have distinct := (fixLoop_some fixes).distinct
  have distinct' := (fixLoop_some fixes').distinct
  have whole : ((block' ++ allow').map (·.id)).Nodup ↔
      ∀ id, id ∈ block'.map (·.id) → ¬id ∈ allow'.map (·.id) := by
    rw [List.map_append, List.nodup_append]
    constructor
    · exact fun ⟨_, _, apart⟩ id here there => apart id here id there rfl
    · exact fun apart => ⟨distinct, distinct', fun id here id' there same =>
        apart id here (same ▸ there)⟩
  have zero : (∀ f ∈ block' ++ allow', f.id ≠ 0) ↔
      ¬0 ∈ block'.map (·.id) ∧ ¬0 ∈ allow'.map (·.id) := by
    simp only [List.mem_append, List.mem_map, not_exists, not_and]
    constructor
    · exact fun none => ⟨fun f member => none f (.inl member), fun f member => none f (.inr member)⟩
    · rintro ⟨none, none'⟩ f (member | member)
      · exact none f member
      · exact none' f member
  simp only [takes, takes'] at whole zero
  constructor
  · intro names
    constructor
    case apart => exact whole.mp names.distinct
    case nonzero => exact zero.mp names.nonzero
    case free =>
      rintro before f after rfl own
      exact (mem_loaded_iff own.first own.given fixes).mp (names.kept before f after rfl own)
    case freeAllowed =>
      rintro before f after rfl own
      exact (mem_loaded_iff own.first own.given fixes').mp (names.keptAllowed before f after rfl own)
  · intro clear
    constructor
    case distinct => exact whole.mpr clear.apart
    case nonzero => exact zero.mpr clear.nonzero
    case kept =>
      rintro before f after rfl own
      exact (mem_loaded_iff own.first own.given fixes).mpr (clear.free before f after rfl own)
    case keptAllowed =>
      rintro before f after rfl own
      exact (mem_loaded_iff own.first own.given fixes').mpr
        (clear.freeAllowed before f after rfl own)

/-- A block filter without an ID, and two that share one. -/
def mixed : List FilterYAML :=
  [⟨"https://a.example", 0⟩, ⟨"https://b.example", 7⟩, ⟨"https://c.example", 7⟩]

def allowed : List FilterYAML := [⟨"https://d.example", 9⟩]

theorem loadAll_mixed : loadAll 100 mixed allowed =
    some ([⟨"https://a.example", 101⟩, ⟨"https://b.example", 7⟩, ⟨"https://c.example", 102⟩],
      allowed) := by
  have unused : nextUnused {7, 101} 101 = some 102 := by
    rw [nextUnused]
    rfl
  simp [loadAll, mixed, allowed, loadFilters, idOrNext, next, deduplicateFilters, deduplicateLoop, fix,
    fixLoop, idOrUnused, unused]

/-- The numbers that are dealt there avoid the IDs of the configuration. -/
theorem loadAll_mixed_clear : Clear 100 mixed allowed 101 := by
  apply (loadAll_namesOne_iff loadAll_mixed).mp
  constructor
  case distinct => decide
  case nonzero => decide
  case kept =>
    intro before f after split own
    have member : f ∈ mixed := split ▸ List.mem_append_right before (List.mem_cons_self ..)
    have given := own.given
    have unique := own.unique
    simp only [mixed, List.mem_cons, List.not_mem_nil, or_false] at member
    rcases member with rfl | rfl | rfl
    · exact absurd rfl given
    · exact absurd unique (by decide)
    · exact absurd unique (by decide)
  case keptAllowed =>
    intro before f after split own
    have member : f ∈ allowed := split ▸ List.mem_append_right before (List.mem_cons_self ..)
    exact member

/-- An ID that a block filter and an allow filter share is left to both. -/
theorem loadAll_shared : ∃ loaded,
    loadAll 100 [⟨"https://a.example", 1⟩] [⟨"https://b.example", 1⟩] = some loaded ∧
      ¬NamesOne [⟨"https://a.example", 1⟩] [⟨"https://b.example", 1⟩] loaded := by
  refine ⟨([⟨"https://a.example", 1⟩], [⟨"https://b.example", 1⟩]), by decide, ?_⟩
  intro names
  exact absurd names.distinct (by decide)

end FirewallCore.Filtering.IdGenerator
