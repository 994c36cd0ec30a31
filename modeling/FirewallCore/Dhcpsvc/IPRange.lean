import Mathlib.Algebra.Order.Ring.Nat
import Mathlib.Data.Nat.Find
import Mathlib.Data.String.Basic

/-!
Ranges of addresses of the DHCP service (`dhcpsvc/iprange.go`).

The search in a range goes from address to address with `Next`. Behind the last address of
a family `Next` is the zero `Addr`, which sorts before every address, so a range that ends
at the last address has no end for the search (`find_correct_iff`). Go has more invalid
addresses than the zero one: `Next` of the zero `Addr` is an invalid address with the value
1, and so on. A predicate may be asked about these, too.
-/

namespace FirewallCore.Dhcpsvc

/-- The `z` of a `netip.Addr`: no address, an IPv4 or an IPv6 address with its zone. -/
inductive Family where
  | z0
  | z4
  | z6 (zone : String)
  deriving DecidableEq, Repr

namespace Family

/-- `BitLen`. -/
def bitLen : Family → Nat
  | z0 => 0
  | z4 => 32
  | z6 _ => 128

/-- The bits of a value. -/
def width : Family → Nat
  | z4 => 32
  | _ => 128

def zone : Family → String
  | z6 zone => zone
  | _ => ""

end Family

/-- `netip.Addr`. -/
structure NetAddr where
  z : Family
  value : Nat
  bound : value < 2 ^ z.width
  deriving DecidableEq

namespace NetAddr

/-- `netip.Addr{}`. -/
def zero : NetAddr := ⟨.z0, 0, by decide⟩

def is4 (a : NetAddr) : Bool := a.z = .z4

/-- `Less`: by bit length, then by value, then by zone. -/
def less (a b : NetAddr) : Bool :=
  a.z.bitLen < b.z.bitLen ∨
    a.z.bitLen = b.z.bitLen ∧ (a.value < b.value ∨ a.value = b.value ∧ a.z.zone < b.z.zone)

/-- `Next`. -/
def next (a : NetAddr) : NetAddr :=
  if h : a.value + 1 < 2 ^ a.z.width then ⟨a.z, a.value + 1, h⟩ else zero

/-- The bytes of `AsSlice` as a number. There are none of an invalid address. -/
def asSlice (a : NetAddr) : Nat :=
  match a.z with
  | .z0 => 0
  | _ => a.value

end NetAddr

/-- The errors of `newIPRange`. -/
inductive RangeErr where
  /-- "invalid ip range: %s and %s must be within the same address family" -/
  | family (first last : NetAddr)
  /-- "invalid ip range: start %s is greater than or equal to end %s" -/
  | order (first last : NetAddr)
  /-- "invalid ip range: range length must be within 4294967295" -/
  | length

/-- `ipRange`. -/
structure IPRange where
  first : NetAddr
  last : NetAddr

/-- `maxRangeLen`. -/
def maxRangeLen : Int := 2 ^ 32 - 1

/-- `newIPRange`. -/
def newIPRange (first last : NetAddr) : Except RangeErr IPRange :=
  if first.is4 ≠ last.is4 then .error (.family first last)
  else if ¬first.less last then .error (.order first last)
  else
    let diff : Int := last.asSlice - first.asSlice
    if ¬(0 ≤ diff ∧ diff < 2 ^ 64) ∨ maxRangeLen < diff then .error .length else .ok ⟨first, last⟩

namespace IPRange

/-- `contains`. -/
def contains (r : IPRange) (ip : NetAddr) : Bool := r.first.is4 = ip.is4 ∧ ¬ip.less r.first ∧ ¬r.last.less ip

/-- The loop of `find`, for a number of rounds. -/
def findLoop (r : IPRange) (p : NetAddr → Bool) : Nat → NetAddr → Option NetAddr
  | 0, _ => none
  | rounds + 1, ip =>
    if r.last.less ip then some .zero
    else if p ip then some ip
    else findLoop r p rounds ip.next

/-- `find` returns an address. -/
def Returns (r : IPRange) (p : NetAddr → Bool) (ip : NetAddr) : Prop := ∃ rounds, r.findLoop p rounds r.first = some ip

end IPRange

/-! ### The order of addresses -/

section Order

variable {a a' b : NetAddr}

theorem NetAddr.less_of_less_of_le (less : b.less a = true) (same : a'.z = a.z) (le : a.value ≤ a'.value) :
    b.less a' = true := by
  simp only [NetAddr.less, decide_eq_true_eq] at less ⊢
  rw [same]
  rcases less with shorter | ⟨bits, smaller | ⟨equal, zone⟩⟩
  · exact .inl shorter
  · exact .inr ⟨bits, .inl (by omega)⟩
  · rcases Nat.lt_or_eq_of_le le with lt | eq
    · exact .inr ⟨bits, .inl (by omega)⟩
    · exact .inr ⟨bits, .inr ⟨equal.trans eq, zone⟩⟩

theorem NetAddr.not_less_of_le (same : a.z = b.z) (le : b.value ≤ a.value) : a.less b = false := by
  simp only [NetAddr.less, decide_eq_false_iff_not]
  rintro (shorter | ⟨-, smaller | ⟨-, zone⟩⟩)
  · rw [same] at shorter
    omega
  · omega
  · rw [same] at zone
    exact lt_irrefl _ zone

theorem NetAddr.le_of_not_less (same : a.z = b.z) (notLess : a.less b = false) : b.value ≤ a.value := by
  simp only [NetAddr.less, decide_eq_false_iff_not, not_or, not_and] at notLess
  have := (notLess.2 (by rw [same])).1
  omega

end Order

/-! ### The search -/

namespace IPRange

section Search

variable {r : IPRange} {p : NetAddr → Bool} {a b ip : NetAddr}

theorem findLoop_mono {rounds : Nat} (done : r.findLoop p rounds ip = some a) (more : Nat) :
    r.findLoop p (rounds + more) ip = some a := by
  induction rounds generalizing ip with
  | zero => cases done
  | succ rounds ih =>
    rw [findLoop] at done
    rw [Nat.add_right_comm, findLoop]
    split at done
    · rename_i behind
      rw [if_pos behind]
      exact done
    · rename_i inside
      rw [if_neg inside]
      split at done
      · rename_i found
        rw [if_pos found]
        exact done
      · rename_i skipped
        rw [if_neg skipped]
        exact ih done

theorem Returns.unique (first : r.Returns p a) (second : r.Returns p b) : a = b := by
  obtain ⟨n, first⟩ := first
  obtain ⟨m, second⟩ := second
  have left := findLoop_mono first m
  have right := findLoop_mono second n
  rw [Nat.add_comm, left] at right
  exact Option.some.inj right

/-- The search stops at an address. -/
def Stops (r : IPRange) (p : NetAddr → Bool) (ip : NetAddr) : Prop := r.last.less ip = true ∨ p ip = true

theorem findLoop_next (goesOn : ¬r.Stops p ip) (rounds : Nat) :
    r.findLoop p (rounds + 1) ip = r.findLoop p rounds ip.next := by
  rw [Stops, not_or] at goesOn
  rw [findLoop, if_neg goesOn.1, if_neg goesOn.2]

/-- Over addresses of one family and zone at which it does not stop, the search goes on. -/
theorem findLoop_walk {z : Family} {n : Nat} (rounds d : Nat) (bound : n < 2 ^ z.width) (there : n + d < 2 ^ z.width)
    (goesOn : ∀ m (h : m < 2 ^ z.width), n ≤ m → m < n + d → ¬r.Stops p ⟨z, m, h⟩) :
    r.findLoop p (rounds + d) ⟨z, n, bound⟩ = r.findLoop p rounds ⟨z, n + d, there⟩ := by
  induction d generalizing n with
  | zero => rfl
  | succ d ih =>
    have succ : (⟨z, n, bound⟩ : NetAddr).next = ⟨z, n + 1, by omega⟩ := by
      rw [NetAddr.next, dif_pos (show n + 1 < 2 ^ z.width by omega)]
    rw [← Nat.add_assoc, findLoop_next (goesOn n bound (Nat.le_refl _) (by omega)), succ]
    have there' : n + 1 + d < 2 ^ z.width := by omega
    have rest := ih (by omega) there' fun m h low high => goesOn m h (by omega) (by omega)
    have same : (⟨z, n + 1 + d, there'⟩ : NetAddr) = ⟨z, n + (d + 1), there⟩ := by
      simp only [NetAddr.mk.injEq, true_and]
      omega
    rw [rest, same]

/-- Behind the last address of a family comes the zero one. -/
theorem findLoop_wrap {z : Family} {n : Nat} (rounds : Nat) (bound : n < 2 ^ z.width)
    (goesOn : ∀ m (h : m < 2 ^ z.width), n ≤ m → ¬r.Stops p ⟨z, m, h⟩) :
    r.findLoop p (rounds + (2 ^ z.width - n)) ⟨z, n, bound⟩ = r.findLoop p rounds .zero := by
  have last : 2 ^ z.width - 1 < 2 ^ z.width := by omega
  have walk := findLoop_walk (rounds + 1) (2 ^ z.width - 1 - n) bound (by omega) fun m h low _ => goesOn m h low
  have there : (⟨z, n + (2 ^ z.width - 1 - n), by omega⟩ : NetAddr) = ⟨z, 2 ^ z.width - 1, last⟩ := by
    simp only [NetAddr.mk.injEq, true_and]
    omega
  have turned : (⟨z, 2 ^ z.width - 1, last⟩ : NetAddr).next = .zero := by
    rw [NetAddr.next, dif_neg (show ¬2 ^ z.width - 1 + 1 < 2 ^ z.width by omega)]
  have total : rounds + (2 ^ z.width - n) = rounds + 1 + (2 ^ z.width - 1 - n) := by omega
  rw [total, walk, there, findLoop_next (goesOn _ last (by omega)), turned]

/-- An address of the range with the family and the zone of its start. -/
structure Own (r : IPRange) (ip : NetAddr) : Prop where
  z : ip.z = r.first.z
  contains : r.contains ip = true

theorem contains_iff (r : IPRange) (ip : NetAddr) :
    r.contains ip = true ↔ r.first.is4 = ip.is4 ∧ ip.less r.first = false ∧ r.last.less ip = false := by
  simp [contains]

theorem own_iff : r.Own ip ↔ ip.z = r.first.z ∧ r.first.value ≤ ip.value ∧ r.last.less ip = false := by
  constructor
  · rintro ⟨same, inside⟩
    obtain ⟨-, low, high⟩ := (r.contains_iff ip).mp inside
    exact ⟨same, NetAddr.le_of_not_less same low, high⟩
  · rintro ⟨same, low, high⟩
    have family : r.first.is4 = ip.is4 := by
      simp only [NetAddr.is4, same]
    exact ⟨same, (r.contains_iff ip).mpr ⟨family, NetAddr.not_less_of_le same low, high⟩⟩

/-- The three ways that a search goes: it stops at an address of the range, behind the end of the range, or it gets
to the last address of the family. -/
theorem search_cases (r : IPRange) (p : NetAddr → Bool) :
    (∃ a, r.Returns p a ∧ r.Own a ∧ p a = true ∧ ∀ b, r.Own b → p b = true → a.value ≤ b.value) ∨
      (r.Returns p .zero ∧ (∀ b, r.Own b → p b = false) ∧ ∃ a, a.z = r.first.z ∧ r.last.less a = true) ∨
      ∀ b, b.z = r.first.z → r.first.value ≤ b.value → ¬r.Stops p b := by
  by_cases stops : ∃ n, ∃ h : n < 2 ^ r.first.z.width, r.first.value ≤ n ∧ r.Stops p ⟨r.first.z, n, h⟩
  · obtain ⟨n, ⟨bound, low, here⟩, least⟩ : ∃ n, (∃ h : n < 2 ^ r.first.z.width, r.first.value ≤ n ∧
        r.Stops p ⟨r.first.z, n, h⟩) ∧ ∀ m < n, ¬∃ h : m < 2 ^ r.first.z.width, r.first.value ≤ m ∧
        r.Stops p ⟨r.first.z, m, h⟩ := by
      classical
      exact ⟨Nat.find stops, Nat.find_spec stops, fun m => Nat.find_min stops⟩
    have before : ∀ b : NetAddr, b.z = r.first.z → r.first.value ≤ b.value → b.value < n → ¬r.Stops p b := by
      rintro ⟨z, m, h⟩ rfl from_ lt stop
      exact least m lt ⟨h, from_, stop⟩
    have walk := findLoop_walk (r := r) (p := p) 1 (n - r.first.value) r.first.bound (by omega)
      fun m h from_ lt => before ⟨r.first.z, m, h⟩ rfl from_ (by simp only; omega)
    have there : (⟨r.first.z, r.first.value + (n - r.first.value), by omega⟩ : NetAddr) = ⟨r.first.z, n, bound⟩ := by
      simp only [NetAddr.mk.injEq, true_and]
      omega
    rw [there, findLoop] at walk
    by_cases behind : r.last.less ⟨r.first.z, n, bound⟩ = true
    · rw [if_pos behind] at walk
      refine .inr (.inl ⟨⟨_, walk⟩, fun b own => ?_, ⟨r.first.z, n, bound⟩, rfl, behind⟩)
      obtain ⟨same, from_, inside⟩ := own_iff.mp own
      have lt : b.value < n := by
        by_contra ge
        have := NetAddr.less_of_less_of_le behind same (by simp only; omega)
        rw [inside] at this
        cases this
      have goesOn := before b same from_ lt
      rw [Stops, not_or] at goesOn
      exact Bool.not_eq_true _ ▸ goesOn.2
    · have found : p ⟨r.first.z, n, bound⟩ = true := here.resolve_left behind
      rw [if_neg behind, if_pos found] at walk
      refine .inl ⟨_, ⟨_, walk⟩, own_iff.mpr ⟨rfl, low, by simpa using behind⟩, found, fun b own holds => ?_⟩
      obtain ⟨same, from_, -⟩ := own_iff.mp own
      by_contra lt
      exact before b same from_ (by simpa using lt) (.inr holds)
  · refine .inr (.inr ?_)
    rintro ⟨z, m, h⟩ rfl from_ stop
    exact stops ⟨m, h, from_, stop⟩

/-- No invalid address is behind the end of a range that the search does not leave. -/
theorem not_less_invalid (goesOn : ∀ b, b.z = r.first.z → r.first.value ≤ b.value → ¬r.Stops p b) (invalid : ip.z = .z0) :
    r.last.less ip = false := by
  have top : 2 ^ r.first.z.width - 1 < 2 ^ r.first.z.width := Nat.sub_lt (Nat.two_pow_pos _) Nat.one_pos
  have bound := r.first.bound
  have inside : r.last.less ⟨r.first.z, 2 ^ r.first.z.width - 1, top⟩ ≠ true := fun behind =>
    goesOn ⟨r.first.z, _, top⟩ rfl (by simp only; omega) (.inl behind)
  by_contra behind
  rw [Bool.not_eq_false] at behind
  apply inside
  by_cases same : r.first.z = .z0
  · have below : ip.value ≤ 2 ^ r.first.z.width - 1 := by
      have := ip.bound
      rw [invalid, ← same] at this
      omega
    exact NetAddr.less_of_less_of_le behind (same.trans invalid.symm) below
  · simp only [NetAddr.less, decide_eq_true_eq] at behind ⊢
    rw [invalid] at behind
    have zero : r.last.z.bitLen = 0 := by
      rcases behind with never | ⟨equal, -⟩
      · exact absurd never (Nat.not_lt_zero _)
      · exact equal
    refine .inl ?_
    rw [zero]
    cases z : r.first.z with
    | z0 => exact absurd z same
    | z4 => decide
    | z6 zone => simp [Family.bitLen]

/-- From an invalid address on the search only stops where the predicate holds. -/
theorem findLoop_invalid {rounds : Nat} (inside : ∀ ip, ip.z = .z0 → r.last.less ip = false) (invalid : ip.z = .z0)
    (done : r.findLoop p rounds ip = some a) : p a = true ∧ a.z = .z0 := by
  induction rounds generalizing ip with
  | zero => cases done
  | succ rounds ih =>
    rw [findLoop, inside ip invalid, if_neg Bool.false_ne_true] at done
    split at done
    · rename_i found
      cases done
      exact ⟨found, invalid⟩
    · refine ih ?_ done
      rw [NetAddr.next]
      split
      · exact invalid
      · rfl

/-- The end of the addresses is reached: the search goes on with the zero one. -/
theorem returns_behind (goesOn : ∀ b, b.z = r.first.z → r.first.value ≤ b.value → ¬r.Stops p b)
    (done : r.Returns p a) : p a = true ∧ a.z = .z0 := by
  obtain ⟨rounds, done⟩ := done
  have later := findLoop_mono done (2 ^ r.first.z.width - r.first.value)
  rw [show r.first = ⟨r.first.z, r.first.value, r.first.bound⟩ from rfl,
    findLoop_wrap rounds r.first.bound fun m h from_ => goesOn ⟨r.first.z, m, h⟩ rfl from_] at later
  exact findLoop_invalid (fun ip => not_less_invalid goesOn) rfl later

theorem returns_zero (goesOn : ∀ b, b.z = r.first.z → r.first.value ≤ b.value → ¬r.Stops p b) (holds : p .zero = true) :
    r.Returns p .zero := by
  refine ⟨1 + (2 ^ r.first.z.width - r.first.value), ?_⟩
  rw [show r.first = ⟨r.first.z, r.first.value, r.first.bound⟩ from rfl,
    findLoop_wrap 1 r.first.bound fun m h from_ => goesOn ⟨r.first.z, m, h⟩ rfl from_, findLoop,
    not_less_invalid goesOn rfl, if_neg Bool.false_ne_true, if_pos holds]

end Search

/-! ### What is found -/

section Found

variable {r : IPRange} {p : NetAddr → Bool} {first last : NetAddr}

/-- The least address of the range that meets the predicate, or the zero one if there is none. -/
def IsAnswer (r : IPRange) (p : NetAddr → Bool) (a : NetAddr) : Prop :=
  (r.contains a = true ∧ p a = true ∧ ∀ b, r.contains b = true → p b = true → b.less a = false) ∨
    a = .zero ∧ ∀ b, r.contains b = true → p b = false

/-- The search terminates with the right answer. -/
def FindCorrect (r : IPRange) (p : NetAddr → Bool) : Prop := ∃ a, r.Returns p a ∧ r.IsAnswer p a

/-- Addresses with another zone than the start do not come first, and the search has a place to stop: an address of
the range, one behind the end of the range, or the zero address. -/
structure Bounded (r : IPRange) (p : NetAddr → Bool) : Prop where
  zones : ∀ b, r.contains b = true → p b = true → ∃ a, r.Own a ∧ p a = true ∧ b.less a = false
  stops : (∃ a, r.Own a ∧ p a = true) ∨ (∃ a, a.z = r.first.z ∧ r.last.less a = true) ∨ p .zero = true

/-- Without an address of the start's family and zone, only the zero `Addr` can be the answer. -/
theorem IsAnswer.none {a : NetAddr} (answer : r.IsAnswer p a) (invalid : a.z = .z0)
    (nothing : ∀ b, r.Own b → p b = false) : a = .zero ∧ ∀ b, r.contains b = true → p b = false := by
  rcases answer with ⟨inside, holds, -⟩ | none
  · obtain ⟨-, low, high⟩ := (r.contains_iff a).mp inside
    have start : r.first.z = .z0 := by
      simp only [NetAddr.less, decide_eq_false_iff_not, not_or, invalid] at low
      have short : ¬0 < r.first.z.bitLen := low.1
      cases z : r.first.z with
      | z0 => rfl
      | z4 => rw [z] at short; exact absurd (by decide) short
      | z6 zone => rw [z] at short; exact absurd (by simp [Family.bitLen]) short
    have := nothing a ⟨invalid.trans start.symm, inside⟩
    rw [holds] at this
    cases this
  · exact none

theorem bounded_of_findCorrect (correct : r.FindCorrect p) : r.Bounded p := by
  obtain ⟨a, done, answer⟩ := correct
  rcases search_cases r p with ⟨found, done', own, holds, -⟩ | ⟨done', nothing, behind⟩ | goesOn
  · obtain rfl := done.unique done'
    refine ⟨fun b inside holds' => ⟨a, own, holds, ?_⟩, .inl ⟨a, own, holds⟩⟩
    rcases answer with ⟨-, -, least⟩ | ⟨-, none⟩
    · exact least b inside holds'
    · rw [none a own.contains] at holds
      cases holds
  · obtain rfl := done.unique done'
    obtain ⟨-, none⟩ := answer.none rfl nothing
    refine ⟨fun b inside holds => ?_, .inr (.inl behind)⟩
    rw [none b inside] at holds
    cases holds
  · obtain ⟨holds, invalid⟩ := returns_behind goesOn done
    have nothing : ∀ b, r.Own b → p b = false := by
      intro b own
      obtain ⟨same, from_, -⟩ := own_iff.mp own
      have goes := goesOn b same from_
      rw [Stops, not_or] at goes
      simpa using goes.2
    obtain ⟨rfl, none⟩ := answer.none invalid nothing
    refine ⟨fun b inside holds' => ?_, .inr (.inr holds)⟩
    rw [none b inside] at holds'
    cases holds'

theorem findCorrect_of_bounded (bounded : r.Bounded p) : r.FindCorrect p := by
  rcases search_cases r p with ⟨a, done, own, holds, least⟩ | ⟨done, nothing, -⟩ | goesOn
  · refine ⟨a, done, .inl ⟨own.contains, holds, fun b inside holds' => ?_⟩⟩
    obtain ⟨own', ownOther, holdsOwn, before⟩ := bounded.zones b inside holds'
    by_contra less
    rw [Bool.not_eq_false] at less
    have := NetAddr.less_of_less_of_le less (ownOther.z.trans own.z.symm) (least own' ownOther holdsOwn)
    rw [before] at this
    cases this
  · refine ⟨.zero, done, .inr ⟨rfl, fun b inside => ?_⟩⟩
    by_contra holds
    obtain ⟨a, own, holdsOwn, -⟩ := bounded.zones b inside (by simpa using holds)
    rw [nothing a own] at holdsOwn
    cases holdsOwn
  · have nothing : ∀ a, r.Own a → p a ≠ true := by
      intro a own holds
      obtain ⟨same, from_, -⟩ := own_iff.mp own
      exact goesOn a same from_ (.inr holds)
    have holds : p .zero = true := by
      rcases bounded.stops with ⟨a, own, holds⟩ | ⟨a, same, behind⟩ | holds
      · exact absurd holds (nothing a own)
      · by_cases from_ : r.first.value ≤ a.value
        · exact absurd (.inl behind) (goesOn a same from_)
        · have below : r.last.less r.first = true :=
            NetAddr.less_of_less_of_le behind same.symm (by omega)
          exact absurd (.inl below) (goesOn r.first rfl (Nat.le_refl _))
      · exact holds
    refine ⟨.zero, returns_zero goesOn holds, .inr ⟨rfl, fun b inside => ?_⟩⟩
    by_contra holds'
    obtain ⟨a, own, holdsOwn, -⟩ := bounded.zones b inside (by simpa using holds')
    exact nothing a own holdsOwn

theorem find_correct_iff (r : IPRange) (p : NetAddr → Bool) : r.FindCorrect p ↔ r.Bounded p :=
  ⟨bounded_of_findCorrect, findCorrect_of_bounded⟩

theorem newIPRange_ok (made : newIPRange first last = .ok r) :
    r = ⟨first, last⟩ ∧ first.is4 = last.is4 ∧ first.less last = true := by
  unfold newIPRange at made
  split at made
  · cases made
  · rename_i family
    split at made
    · cases made
    · rename_i order
      simp only at made
      split at made
      · cases made
      · cases made
        exact ⟨rfl, not_not.mp family, by simpa using order⟩

/-- The search in a range of IPv4 addresses is only unbounded at the last of them all. -/
theorem bounded_v4_iff (made : newIPRange first last = .ok r) (v4 : first.z = .z4) :
    r.Bounded p ↔ (∃ a, r.contains a = true ∧ p a = true) ∨ last.value ≠ 2 ^ 32 - 1 ∨ p .zero = true := by
  obtain ⟨rfl, family, order⟩ := newIPRange_ok made
  have lastV4 : last.z = .z4 := by
    simpa [NetAddr.is4, v4] using family.symm
  have own : ∀ a, (⟨first, last⟩ : IPRange).contains a = true → (⟨first, last⟩ : IPRange).Own a := by
    intro a inside
    refine ⟨?_, inside⟩
    have same := ((contains_iff _ a).mp inside).1
    simpa [NetAddr.is4, v4] using same.symm
  have below : (∃ a : NetAddr, a.z = first.z ∧ last.less a = true) ↔ last.value ≠ 2 ^ 32 - 1 := by
    constructor
    · rintro ⟨a, same, behind⟩ top
      have notLess : last.less a = false := by
        refine NetAddr.not_less_of_le (lastV4.trans (same.trans v4).symm) ?_
        have bound := a.bound
        rw [same, v4] at bound
        rw [top]
        exact Nat.le_pred_of_lt bound
      rw [behind] at notLess
      cases notLess
    · intro other
      have bound : last.value + 1 < 2 ^ Family.z4.width := by
        have := last.bound
        rw [lastV4] at this
        simp only [Family.width] at this ⊢
        omega
      refine ⟨⟨.z4, last.value + 1, bound⟩, v4.symm, ?_⟩
      exact decide_eq_true (.inr ⟨by rw [lastV4], .inl (Nat.lt_succ_self _)⟩)
  constructor
  · rintro ⟨-, ⟨a, found, holds⟩ | behind | holds⟩
    · exact .inl ⟨a, found.contains, holds⟩
    · exact .inr (.inl (below.mp behind))
    · exact .inr (.inr holds)
  · intro stops
    refine ⟨fun b inside holds => ⟨b, own b inside, holds, NetAddr.not_less_of_le rfl (Nat.le_refl _)⟩, ?_⟩
    rcases stops with ⟨a, inside, holds⟩ | other | holds
    · exact .inl ⟨a, own a inside, holds⟩
    · exact .inr (.inl (below.mpr other))
    · exact .inr (.inr holds)

/-- The last two IPv4 addresses. -/
def lastTwo : IPRange := ⟨⟨.z4, 0xFFFFFFFE, by decide⟩, ⟨.z4, 0xFFFFFFFF, by decide⟩⟩

/-- A search for nothing in them does not end. -/
theorem lastTwo_endless :
    (newIPRange lastTwo.first lastTwo.last).toOption = some lastTwo ∧ ¬lastTwo.FindCorrect fun _ => false := by
  have made : newIPRange lastTwo.first lastTwo.last = .ok lastTwo := rfl
  refine ⟨by rw [made]; rfl, fun correct => ?_⟩
  rcases (bounded_v4_iff made rfl).mp (bounded_of_findCorrect correct) with ⟨a, -, holds⟩ | other | holds
  · cases holds
  · exact other rfl
  · cases holds

end Found

end IPRange

end FirewallCore.Dhcpsvc
