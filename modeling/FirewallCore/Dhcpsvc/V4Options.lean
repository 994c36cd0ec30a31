import Mathlib.Data.List.Infix
import FirewallCore.Lib.BinarySearch
import FirewallCore.Net.Addr

/-!
The options of an IPv4 interface of the DHCP service (`dhcpsvc/v4.go`).

The explicit options are kept sorted by code. One more option of a code goes in front
of the others that the list has of it, and a deletion takes away the first of them. So
for each code the list is a stack: a code that is set twice is there twice, and one
deletion is not enough for it.
-/

namespace FirewallCore.Dhcpsvc

open FirewallCore.Lib FirewallCore.Net

/-- `layers.DHCPOption`. -/
structure DHCPOption where
  /-- `Type`, the code. -/
  code : UInt8
  length : UInt8
  data : List UInt8
  deriving DecidableEq, Repr

/-- `layers.NewDHCPOption`. -/
def newDHCPOption (code : UInt8) (data : List UInt8) : DHCPOption := ⟨code, .ofNat data.length, data⟩

/-- The bytes of an address as `AsSlice` returns them. -/
def addrBytes : Addr → List UInt8
  | .zero => []
  | .v4 n => (List.range 4).map fun i => .ofNat (n.toNat / 256 ^ (3 - i))
  | .v6 n _ => (List.range 16).map fun i => .ofNat (n.toNat / 256 ^ (15 - i))

/-- `compareV4OptionCodes`. -/
def compareV4OptionCodes (a b : DHCPOption) : Ordering := compare a.code.toNat b.code.toNat

/-- `IPv4Config`, as far as its options need it. -/
structure IPv4Config where
  subnetMask : Addr
  gatewayIP : Addr
  options : List DHCPOption

namespace IPv4Config

/-- The default values of the host configuration parameters, as they are listed. -/
def defaults (c : IPv4Config) : List DHCPOption :=
  [newDHCPOption 1 (addrBytes c.subnetMask),
    newDHCPOption 3 (addrBytes c.gatewayIP),
    -- IP layer, per host
    newDHCPOption 19 [0x0],
    newDHCPOption 20 [0x0],
    newDHCPOption 22 [0x2, 0x40],
    newDHCPOption 23 [0x40],
    newDHCPOption 24 [0x0, 0x0, 0x2, 0x58],
    newDHCPOption 25
      [0x0, 0x44, 0x1, 0x28, 0x1, 0xFC, 0x3, 0xEE, 0x5, 0xD4, 0x7, 0xD2, 0x11, 0x0, 0x1F, 0xE6, 0x45, 0xFA],
    -- IP layer, per interface
    newDHCPOption 27 [0x0],
    newDHCPOption 29 [0x0],
    newDHCPOption 30 [0x0],
    newDHCPOption 31 [0x1],
    newDHCPOption 32 [224, 0, 0, 2],
    newDHCPOption 28 [255, 255, 255, 255],
    -- Link layer
    newDHCPOption 34 [0x0],
    newDHCPOption 35 [0x0, 0x0, 0x0, 0x3C],
    newDHCPOption 36 [0x0],
    -- TCP
    newDHCPOption 37 [0x0, 0x0, 0x0, 0x3C],
    newDHCPOption 38 [0x0, 0x0, 0x1C, 0x20],
    newDHCPOption 39 [0x1]]

/-- The implicit options after an explicit one. -/
def stepImplicit (imp : List DHCPOption) (o : DHCPOption) : List DHCPOption :=
  let (i, found) := binarySearchFunc imp o compareV4OptionCodes
  if found then imp.eraseIdx i else imp

/-- The explicit options after one more. -/
def stepExplicit (exp : List DHCPOption) (o : DHCPOption) : List DHCPOption :=
  let (i, found) := binarySearchFunc exp o compareV4OptionCodes
  if 0 < o.length then exp.insertIdx i o
  else if found then exp.eraseIdx i
  else exp

/-- `options`: the implicit options and the explicit ones. -/
def getOptions (c : IPv4Config) : List DHCPOption × List DHCPOption :=
  c.options.foldl (fun opts o => (stepImplicit opts.1 o, stepExplicit opts.2 o))
    (c.defaults.mergeSort fun a b => (compareV4OptionCodes a b).isLE, [])

end IPv4Config

/-! ### Sorted options -/

section Sorted

variable {l A B : List DHCPOption} {o : DHCPOption} {k : UInt8}

/-- Options in the order of their codes. -/
def SortedByCode (l : List DHCPOption) : Prop := l.Pairwise fun a b => a.code.toNat ≤ b.code.toNat

/-- The options of a code. -/
def ofCode (k : UInt8) (l : List DHCPOption) : List DHCPOption := l.filter (·.code = k)

theorem SortedByCode.split (sorted : SortedByCode l) (o : DHCPOption) :
    ∃ A B, l = A ++ B ∧ (∀ a ∈ A, a.code.toNat < o.code.toNat) ∧ ∀ b ∈ B, o.code.toNat ≤ b.code.toNat := by
  induction l with
  | nil => exact ⟨[], [], rfl, by simp, by simp⟩
  | cons x l ih =>
    obtain ⟨first, rest⟩ := List.pairwise_cons.mp sorted
    by_cases below : x.code.toNat < o.code.toNat
    · obtain ⟨A, B, rfl, low, high⟩ := ih rest
      exact ⟨x :: A, B, rfl, List.forall_mem_cons.mpr ⟨below, low⟩, high⟩
    · refine ⟨[], x :: l, rfl, by simp, List.forall_mem_cons.mpr ⟨by omega, ?_⟩⟩
      intro b later
      have := first b later
      omega

theorem binarySearchFunc_codes (low : ∀ a ∈ A, a.code.toNat < o.code.toNat) (high : ∀ b ∈ B, o.code.toNat ≤ b.code.toNat) :
    binarySearchFunc (A ++ B) o compareV4OptionCodes = (A.length, B.head?.any (·.code = o.code)) := by
  rw [binarySearchFunc_split]
  · have same : ∀ b : DHCPOption, (compareV4OptionCodes b o == .eq) = decide (b.code = o.code) := by
      intro b
      rw [Bool.eq_iff_iff]
      simp [compareV4OptionCodes, UInt8.toNat_inj]
    simp only [same]
  · intro a before
    exact Nat.compare_eq_lt.mpr (low a before)
  · intro b behind
    rw [compareV4OptionCodes, ne_eq, Nat.compare_eq_lt]
    have := high b behind
    omega

theorem ofCode_below (low : ∀ a ∈ A, a.code.toNat < k.toNat) : ofCode k A = [] := by
  refine List.filter_eq_nil_iff.mpr fun a before => ?_
  have := low a before
  simp only [decide_eq_true_eq, ← UInt8.toNat_inj]
  omega

theorem ofCode_append (k : UInt8) (A B : List DHCPOption) : ofCode k (A ++ B) = ofCode k A ++ ofCode k B :=
  List.filter_append ..

/-- Options behind the place of a code of which the first has another. -/
theorem ofCode_behind (sorted : SortedByCode B) (high : ∀ b ∈ B, k.toNat ≤ b.code.toNat)
    (other : B.head?.any (·.code = k) = false) : ofCode k B = [] := by
  cases B with
  | nil => rfl
  | cons b B =>
    have above : k.toNat < b.code.toNat := by
      have bound := high b List.mem_cons_self
      simp only [List.head?_cons, Option.any_some, decide_eq_false_iff_not, ← UInt8.toNat_inj] at other
      omega
    refine List.filter_eq_nil_iff.mpr fun x member => ?_
    have after : b.code.toNat ≤ x.code.toNat := by
      rcases List.mem_cons.mp member with rfl | later
      · exact Nat.le_refl _
      · exact (List.pairwise_cons.mp sorted).1 x later
    simp only [decide_eq_true_eq, ← UInt8.toNat_inj]
    omega

end Sorted

/-! ### One more option -/

section Steps

variable {imp exp : List DHCPOption} {o : DHCPOption}

/-- What a stack of options becomes with one more of its code. -/
def push (stack : List DHCPOption) (o : DHCPOption) : List DHCPOption :=
  if 0 < o.length then o :: stack else stack.tail

theorem stepExplicit_spec (sorted : SortedByCode exp) (o : DHCPOption) :
    SortedByCode (IPv4Config.stepExplicit exp o) ∧
      ofCode o.code (IPv4Config.stepExplicit exp o) = push (ofCode o.code exp) o ∧
      ∀ k, k ≠ o.code → ofCode k (IPv4Config.stepExplicit exp o) = ofCode k exp := by
  obtain ⟨A, B, rfl, low, high⟩ := sorted.split o
  obtain ⟨left, right, apart⟩ := List.pairwise_append.mp sorted
  have nothing : ofCode o.code A = [] := ofCode_below low
  unfold IPv4Config.stepExplicit push
  rw [binarySearchFunc_codes low high]
  by_cases set : 0 < o.length
  · simp only [if_pos set, insertIdx_length_append]
    refine ⟨List.pairwise_append.mpr ⟨left, List.pairwise_cons.mpr ⟨high, right⟩, ?_⟩, ?_, fun k other => ?_⟩
    · intro a before b behind
      rcases List.mem_cons.mp behind with rfl | later
      · exact Nat.le_of_lt (low a before)
      · exact apart a before b later
    · rw [ofCode_append, ofCode_append, nothing]
      simp [ofCode]
    · rw [ofCode_append, ofCode_append]
      simp [ofCode, other.symm]
  · simp only [if_neg set]
    by_cases found : B.head?.any (·.code = o.code) = true
    · obtain ⟨b, B, rfl⟩ : ∃ b B', B = b :: B' := by
        cases B with
        | nil => simp at found
        | cons b B => exact ⟨b, B, rfl⟩
      have same : b.code = o.code := by simpa using found
      rw [if_pos found, List.eraseIdx_append_of_length_le (Nat.le_refl _), Nat.sub_self, List.eraseIdx_cons_zero]
      refine ⟨sorted.sublist ((List.sublist_cons_self b B).append_left A), ?_, fun k other => ?_⟩
      · rw [ofCode_append, ofCode_append, nothing]
        simp [ofCode, same]
      · rw [ofCode_append, ofCode_append]
        simp [ofCode, same, other.symm]
    · rw [if_neg found]
      refine ⟨sorted, ?_, fun _ _ => rfl⟩
      rw [ofCode_append, nothing, ofCode_behind right high (by simpa using found)]
      rfl

theorem stepImplicit_spec (sorted : imp.Pairwise fun a b => a.code.toNat < b.code.toNat) (o : DHCPOption) :
    ((IPv4Config.stepImplicit imp o).Pairwise fun a b => a.code.toNat < b.code.toNat) ∧
      ∀ a, a ∈ IPv4Config.stepImplicit imp o ↔ a ∈ imp ∧ a.code ≠ o.code := by
  have weak : SortedByCode imp := sorted.imp Nat.le_of_lt
  obtain ⟨A, B, rfl, low, high⟩ := weak.split o
  have before : ∀ a ∈ A, a.code ≠ o.code := by
    rintro a member same
    have := low a member
    rw [same] at this
    omega
  unfold IPv4Config.stepImplicit
  rw [binarySearchFunc_codes low high]
  by_cases found : B.head?.any (·.code = o.code) = true
  · obtain ⟨b, B, rfl⟩ : ∃ b B', B = b :: B' := by
      cases B with
      | nil => simp at found
      | cons b B => exact ⟨b, B, rfl⟩
    have same : b.code = o.code := by simpa using found
    obtain ⟨-, right, -⟩ := List.pairwise_append.mp sorted
    have behind : ∀ a ∈ B, a.code ≠ o.code := by
      rintro a member equal
      have := (List.pairwise_cons.mp right).1 a member
      rw [same, equal] at this
      omega
    simp only [if_pos found, List.eraseIdx_append_of_length_le (Nat.le_refl _), Nat.sub_self, List.eraseIdx_cons_zero]
    refine ⟨sorted.sublist ((List.sublist_cons_self b B).append_left A), fun a => ?_⟩
    simp only [List.mem_append, List.mem_cons]
    constructor
    · rintro (member | member)
      · exact ⟨.inl member, before a member⟩
      · exact ⟨.inr (.inr member), behind a member⟩
    · rintro ⟨member | rfl | member, other⟩
      · exact .inl member
      · exact absurd same other
      · exact .inr member
  · simp only [if_neg found]
    have none : ofCode o.code B = [] := ofCode_behind (List.pairwise_append.mp weak).2.1 high (by simpa using found)
    refine ⟨sorted, fun a => ⟨fun member => ⟨member, ?_⟩, And.left⟩⟩
    rcases List.mem_append.mp member with member | member
    · exact before a member
    · exact fun same => List.filter_eq_nil_iff.mp none a member (by simp [same])

end Steps

/-! ### All options -/

section Run

variable {options : List DHCPOption} {imp exp : List DHCPOption}

/-- The options of a code that the explicit ones have after a list, the last one first. -/
def stackFrom (k : UInt8) (stack options : List DHCPOption) : List DHCPOption :=
  options.foldl (fun stack o => if o.code = k then push stack o else stack) stack

structure Collected (options imp exp imp' exp' : List DHCPOption) : Prop where
  implicitSorted : imp'.Pairwise fun a b => a.code.toNat < b.code.toNat
  implicit : ∀ a, a ∈ imp' ↔ a ∈ imp ∧ ∀ o ∈ options, a.code ≠ o.code
  explicitSorted : SortedByCode exp'
  explicit : ∀ k, ofCode k exp' = stackFrom k (ofCode k exp) options

theorem collected_foldl (implicitSorted : imp.Pairwise fun a b => a.code.toNat < b.code.toNat)
    (explicitSorted : SortedByCode exp) {opts : List DHCPOption × List DHCPOption}
    (done : options.foldl (fun opts o => (IPv4Config.stepImplicit opts.1 o, IPv4Config.stepExplicit opts.2 o)) (imp, exp) = opts) :
    Collected options imp exp opts.1 opts.2 := by
  induction options generalizing imp exp with
  | nil =>
    cases done
    exact ⟨implicitSorted, by simp, explicitSorted, fun _ => rfl⟩
  | cons o options ih =>
    obtain ⟨implicitSorted, implicit⟩ := stepImplicit_spec implicitSorted o
    obtain ⟨explicitSorted, here, elsewhere⟩ := stepExplicit_spec explicitSorted o
    have rest := ih implicitSorted explicitSorted done
    refine ⟨rest.implicitSorted, fun a => ?_, rest.explicitSorted, fun k => ?_⟩
    · rw [rest.implicit, implicit, List.forall_mem_cons, and_assoc]
    · rw [rest.explicit, stackFrom, stackFrom, List.foldl_cons]
      by_cases same : o.code = k
      · subst same
        rw [here, if_pos rfl]
      · rw [elsewhere k (Ne.symm same), if_neg same]

theorem IPv4Config.defaults_sorted (c : IPv4Config) :
    (c.defaults.mergeSort fun a b => (compareV4OptionCodes a b).isLE).Pairwise fun a b => a.code.toNat < b.code.toNat := by
  have weak : (c.defaults.mergeSort fun a b => (compareV4OptionCodes a b).isLE).Pairwise
      fun a b => (compareV4OptionCodes a b).isLE = true := by
    apply List.pairwise_mergeSort
    · intro a b d
      simp only [compareV4OptionCodes, Nat.isLE_compare]
      omega
    · intro a b
      simp only [compareV4OptionCodes, Nat.isLE_compare, Bool.or_eq_true]
      omega
  have distinct : (c.defaults.map (·.code)).Nodup := by
    show [1, 3, 19, 20, 22, 23, 24, 25, 27, 29, 30, 31, 32, 28, 34, 35, 36, 37, 38, 39].Nodup
    decide
  have apart : (c.defaults.mergeSort fun a b => (compareV4OptionCodes a b).isLE).Pairwise fun a b => a.code ≠ b.code := by
    rw [← List.pairwise_map]
    exact ((List.mergeSort_perm _ _).map _).nodup_iff.mpr distinct
  refine (weak.and apart).imp fun {a b} both => ?_
  have bound := Nat.isLE_compare.mp both.1
  have other := mt UInt8.toNat_inj.mp both.2
  omega

theorem IPv4Config.collected (c : IPv4Config) :
    Collected c.options (c.defaults.mergeSort fun a b => (compareV4OptionCodes a b).isLE) [] c.getOptions.1 c.getOptions.2 :=
  collected_foldl c.defaults_sorted .nil rfl

end Run

/-! ### Stacks -/

section Stacks

variable {k : UInt8} {options : List DHCPOption} {o : DHCPOption}

/-- An option that sets a code. -/
def sets (k : UInt8) (o : DHCPOption) : Bool := o.code = k ∧ 0 < o.length

/-- An option that deletes a code. -/
def deletes (k : UInt8) (o : DHCPOption) : Bool := o.code = k ∧ ¬0 < o.length

theorem stackFrom_concat (k : UInt8) (options : List DHCPOption) (o : DHCPOption) :
    stackFrom k [] (options ++ [o]) =
      if o.code = k then push (stackFrom k [] options) o else stackFrom k [] options := by
  simp [stackFrom]

/-- The stack of a code is higher than `d` if options at the end of the list set it more than `d` times oftener
than they delete it. -/
theorem length_stackFrom_le (k : UInt8) (options : List DHCPOption) (d : Nat) :
    (stackFrom k [] options).length ≤ d ↔
      ∀ part, part <:+ options → part.countP (sets k) ≤ part.countP (deletes k) + d := by
  induction options using List.reverseRecOn generalizing d with
  | nil => simp [stackFrom]
  | append_singleton options o ih =>
    have ends : ∀ P : List DHCPOption → Prop, (∀ part, part <:+ options ++ [o] → P part) ↔
        P [] ∧ ∀ part, part <:+ options → P (part ++ [o]) := by
      intro P
      simp only [List.suffix_concat_iff]
      constructor
      · intro all
        exact ⟨all _ (.inl rfl), fun part isEnd => all _ (.inr ⟨part, rfl, isEnd⟩)⟩
      · rintro ⟨nil, all⟩ part (rfl | ⟨part, rfl, isEnd⟩)
        · exact nil
        · exact all part isEnd
    rw [stackFrom_concat, ends]
    simp only [List.countP_append, List.countP_singleton, List.countP_nil, sets, deletes]
    by_cases same : o.code = k
    · by_cases set : 0 < o.length
      · simp only [same, set, push, if_true, List.length_cons, true_and, decide_true, not_true_eq_false, decide_false,
          Bool.false_eq_true, if_false, Nat.add_zero, Nat.zero_le]
        cases d with
        | zero =>
          simp only [Nat.add_zero, Nat.le_zero_eq, Nat.add_eq_zero_iff, one_ne_zero, and_false, false_iff, not_forall]
          exact ⟨[], List.nil_suffix, by simp⟩
        | succ d =>
          rw [Nat.succ_le_succ_iff, ih]
          refine forall₂_congr fun part _ => ?_
          omega
      · simp only [same, set, push, if_true, if_false, List.length_tail, true_and, decide_false, not_false_eq_true,
          decide_true, Bool.false_eq_true, Nat.add_zero, Nat.zero_le]
        rw [Nat.sub_le_iff_le_add, ih]
        refine forall₂_congr fun part _ => ?_
        omega
    · simp only [same, if_false, false_and, decide_false, Bool.false_eq_true, Nat.add_zero, Nat.zero_le, true_and]
      rw [ih]

theorem stackFrom_last (k : UInt8) (options : List DHCPOption) :
    stackFrom k [] options =
      match (ofCode k options).getLast? with
      | none => []
      | some o => if 0 < o.length then o :: (stackFrom k [] options).tail else stackFrom k [] options := by
  induction options using List.reverseRecOn with
  | nil => rfl
  | append_singleton options o ih =>
    by_cases same : o.code = k
    · have found : (ofCode k (options ++ [o])).getLast? = some o := by
        simp [ofCode, same]
      rw [found]
      by_cases set : 0 < o.length
      · simp [stackFrom_concat, same, push, set]
      · simp [set]
    · have skipped : ofCode k (options ++ [o]) = ofCode k options := by
        simp [ofCode, same]
      rw [stackFrom_concat, if_neg same, skipped]
      exact ih

end Stacks

/-! ### The explicit options -/

namespace IPv4Config

variable {c : IPv4Config}

/-- What the last option of a code leaves of it. -/
def lastValue (k : UInt8) (options : List DHCPOption) : List DHCPOption :=
  match (ofCode k options).getLast? with
  | none => []
  | some o => if 0 < o.length then [o] else []

/-- Both lists are sorted and apart, the explicit one has the last value of each code, and a code that the last
option deletes is in neither. -/
structure LastWins (c : IPv4Config) : Prop where
  implicitSorted : SortedByCode c.getOptions.1
  explicitSorted : SortedByCode c.getOptions.2
  disjoint : ∀ a ∈ c.getOptions.1, ∀ b ∈ c.getOptions.2, a.code ≠ b.code
  explicit : ∀ k, ofCode k c.getOptions.2 = lastValue k c.options
  deleted : ∀ k o, (ofCode k c.options).getLast? = some o → ¬0 < o.length →
    ofCode k c.getOptions.1 = [] ∧ ofCode k c.getOptions.2 = []

/-- Counted from the end of the list, a code is never set oftener than it is deleted, its last value aside. -/
def SetOnce (options : List DHCPOption) : Prop :=
  ∀ k part, part <:+ options →
    part.countP (sets k) ≤ part.countP (deletes k) + (lastValue k options).length

theorem stackFrom_eq_lastValue_iff (k : UInt8) (options : List DHCPOption) :
    stackFrom k [] options = lastValue k options ↔ (stackFrom k [] options).length ≤ (lastValue k options).length := by
  constructor
  · intro same
    rw [same]
  · have shape := stackFrom_last k options
    unfold lastValue
    cases last : (ofCode k options).getLast? with
    | none =>
      rw [last] at shape
      exact fun _ => shape
    | some o =>
      rw [last] at shape
      by_cases set : 0 < o.length
      · simp only [if_pos set] at shape ⊢
        intro short
        have empty : (stackFrom k [] options).tail = [] := by
          refine List.eq_nil_of_length_eq_zero ?_
          rw [List.length_tail]
          exact Nat.sub_eq_zero_of_le short
        rw [shape, empty]
      · simp only [if_neg set]
        intro short
        exact List.eq_nil_of_length_eq_zero (Nat.le_zero.mp short)

theorem setOnce_iff (options : List DHCPOption) :
    SetOnce options ↔ ∀ k, stackFrom k [] options = lastValue k options := by
  unfold SetOnce
  refine forall_congr' fun k => ?_
  rw [stackFrom_eq_lastValue_iff, length_stackFrom_le]

/-- The explicit options of a code are its stack. -/
theorem ofCode_explicit (c : IPv4Config) (k : UInt8) : ofCode k c.getOptions.2 = stackFrom k [] c.options :=
  c.collected.explicit k

theorem code_of_mem_explicit {b : DHCPOption} (member : b ∈ c.getOptions.2) : ∃ o ∈ c.options, o.code = b.code := by
  by_contra none
  have empty : ofCode b.code c.options = [] := by
    refine List.filter_eq_nil_iff.mpr fun o listed => ?_
    rw [decide_eq_true_eq]
    exact fun same => none ⟨o, listed, same⟩
  have stack := stackFrom_last b.code c.options
  rw [empty, ← ofCode_explicit] at stack
  exact List.filter_eq_nil_iff.mp stack b member (by simp)

theorem disjoint_getOptions (c : IPv4Config) : ∀ a ∈ c.getOptions.1, ∀ b ∈ c.getOptions.2, a.code ≠ b.code := by
  intro a implicit b explicit same
  obtain ⟨o, listed, code⟩ := code_of_mem_explicit explicit
  exact ((c.collected.implicit a).mp implicit).2 o listed (same.trans code.symm)

theorem lastWins_iff (c : IPv4Config) : c.LastWins ↔ SetOnce c.options := by
  rw [setOnce_iff]
  constructor
  · intro right k
    rw [← ofCode_explicit, right.explicit]
  · intro values
    refine ⟨c.collected.implicitSorted.imp Nat.le_of_lt, c.collected.explicitSorted, c.disjoint_getOptions,
      fun k => (c.ofCode_explicit k).trans (values k), fun k o last zero => ⟨?_, ?_⟩⟩
    · have listed := List.mem_filter.mp (List.mem_of_getLast? last)
      refine List.filter_eq_nil_iff.mpr fun a implicit => ?_
      rw [decide_eq_true_eq]
      intro same
      have code : o.code = k := by simpa using listed.2
      exact ((c.collected.implicit a).mp implicit).2 o listed.1 (same.trans code.symm)
    · rw [ofCode_explicit, values, lastValue, last]
      exact if_neg zero

/-- A configuration with two values for the DNS servers. -/
def twoServers : IPv4Config where
  subnetMask := .v4 0xFFFFFF00
  gatewayIP := .v4 0xC0A80001
  options := [newDHCPOption 6 [1, 1, 1, 1], newDHCPOption 6 [8, 8, 8, 8]]

/-- Both values are sent. -/
theorem twoServers_repeated : ¬twoServers.LastWins := by
  intro right
  have once := right.explicit 6
  revert once
  decide

end IPv4Config

end FirewallCore.Dhcpsvc
