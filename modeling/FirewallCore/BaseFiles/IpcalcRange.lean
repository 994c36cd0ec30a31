import FirewallCore.BaseFiles.Ipcalc
import Mathlib.Order.Bounds.Basic

/-!
The range that `ipcalc.sh` prints: it starts at the first host address from the one that was asked for on,
has no more addresses than were asked for and leaves out the address itself.
-/

namespace FirewallCore.BaseFiles

open FirewallCore.Lib

/-! ### The first free address -/

section Free

variable {lo hi a r x : Nat}

/-- The first number from a lower bound and a wish on that is not taken. -/
def firstFree (lo a r : Nat) : Nat := if max lo r = a then max lo r + 1 else max lo r

theorem firstFree_le (least : lo ≤ x) (wish : r ≤ x) (free : x ≠ a) : firstFree lo a r ≤ x := by
  unfold firstFree
  split <;> omega

theorem firstFree_spec : lo ≤ firstFree lo a r ∧ r ≤ firstFree lo a r ∧ firstFree lo a r ≠ a := by
  unfold firstFree
  split <;> omega

/-- The end of a range of some length: clipped, and stepped back from what is taken. -/
def lastFree (hi a start limit : Nat) : Int :=
  let last : Int := start + limit - 1
  let last := if (hi : Int) < last then (hi : Int) else last
  if last = a then last - 1 else last

theorem lastFree_spec {start limit : Nat} (free : start ≠ a) (fits : start ≤ hi) (any : 0 < limit) :
    (start : Int) ≤ lastFree hi a start limit ∧ lastFree hi a start limit ≤ hi ∧
      lastFree hi a start limit < start + limit ∧ lastFree hi a start limit ≠ a := by
  unfold lastFree
  dsimp only
  split <;> split <;> omega

theorem lastFree_lt {start limit : Nat} (none : hi < start ∨ limit = 0) : lastFree hi a start limit < start := by
  unfold lastFree
  dsimp only
  split <;> split <;> omega

end Free

/-! ### Networks -/

/-- An address and the length of a prefix. -/
structure Network where
  address : UInt32
  length : Fin 33

namespace Network

variable (w : Network)

/-- The number of addresses. -/
def size : Nat := 2 ^ (32 - w.length.val)

def base : Nat := w.size * (w.address.toNat / w.size)

def top : Nat := w.base + (w.size - 1)

/-- The host addresses: those of the network, without the first and the last one for prefixes up to 30. -/
def IsHost (x : Nat) : Prop := (w.base ≤ x ∧ x ≤ w.top) ∧ (w.length.val ≤ 30 → x ≠ w.base ∧ x ≠ w.top)

/-- The address in the network with the host part that was asked for. -/
def requested (start : UInt32) : Nat := w.base + start.toNat % w.size

/-- The first host address from the one that was asked for on that is not the address itself. -/
def IsStart (start : UInt32) (s : Nat) : Prop :=
  IsLeast { x | w.IsHost x ∧ x ≠ w.address.toNat ∧ w.requested start ≤ x } s

/-- A range of host addresses, not more than were asked for and without the address itself. -/
def IsRange (limit : UInt32) (s e : Nat) : Prop :=
  s ≤ e ∧ w.IsHost s ∧ w.IsHost e ∧ e - s + 1 ≤ limit.toNat ∧ ¬(s ≤ w.address.toNat ∧ w.address.toNat ≤ e)

/-- The address lies strictly inside the range that was asked for. -/
def Inside (limit : UInt32) (s : Nat) : Prop :=
  s < w.address.toNat ∧ ∃ e, w.IsHost e ∧ e < s + limit.toNat ∧ w.address.toNat < e

def lowest : Nat := if w.length.val ≤ 30 then w.base + 1 else w.base

def highest : Nat := if w.length.val ≤ 30 then w.top - 1 else w.top

variable {w} {x s : Nat} {start limit : UInt32}

theorem size_pos : 0 < w.size := Nat.two_pow_pos _

theorem size_large (short : w.length.val ≤ 30) : 4 ≤ w.size :=
  (show 4 = 2 ^ 2 from rfl).le.trans (Nat.pow_le_pow_right (by decide) (by omega))

theorem isHost_iff : w.IsHost x ↔ w.lowest ≤ x ∧ x ≤ w.highest := by
  unfold IsHost lowest highest top
  split
  · rename_i short
    have large := size_large short
    omega
  · omega

theorem isStart_iff : w.IsStart start s ↔
    s = firstFree w.lowest w.address.toNat (w.requested start) ∧ s ≤ w.highest := by
  obtain ⟨least, wish, free⟩ := @firstFree_spec w.lowest w.address.toNat (w.requested start)
  constructor
  · rintro ⟨⟨host, other, behind⟩, first⟩
    obtain ⟨low, high⟩ := isHost_iff.mp host
    have below := firstFree_le low behind other
    have least' := first ⟨isHost_iff.mpr ⟨least, below.trans high⟩, free, wish⟩
    exact ⟨Nat.le_antisymm least' below, high⟩
  · rintro ⟨rfl, fits⟩
    refine ⟨⟨isHost_iff.mpr ⟨least, fits⟩, free, wish⟩, fun x member => ?_⟩
    exact firstFree_le (isHost_iff.mp member.1).1 member.2.2 member.2.1

/-- Where the range would start, and end. -/
def first (w : Network) (start : UInt32) : Nat := firstFree w.lowest w.address.toNat (w.requested start)

def last (w : Network) (start limit : UInt32) : Int :=
  lastFree w.highest w.address.toNat (w.first start) limit.toNat

/-- A range without an address has no right one in its place. -/
theorem no_range (less : w.last start limit < w.first start) : ¬∃ s e, w.IsStart start s ∧ w.IsRange limit s e := by
  rintro ⟨s, e, starts, ordered, _, _, few, _⟩
  obtain ⟨rfl, fits⟩ := isStart_iff.mp starts
  have free := (@firstFree_spec w.lowest w.address.toNat (w.requested start)).2.2
  have first' := (lastFree_spec free fits (show 0 < limit.toNat by omega)).1
  exact absurd less (Int.not_lt.mpr first')

/-- Otherwise the range is right, unless the address is inside. -/
theorem range_spec (any : w.first start ≤ w.last start limit) : w.IsStart start (w.first start) ∧
    if w.first start ≤ w.address.toNat ∧ w.address.toNat ≤ w.last start limit then w.Inside limit (w.first start)
    else w.IsRange limit (w.first start) (w.last start limit).toNat := by
  have fits : w.first start ≤ w.highest ∧ 0 < limit.toNat := by
    by_contra none
    have less : w.last start limit < w.first start := lastFree_lt (by omega)
    exact absurd any (Int.not_le.mpr less)
  obtain ⟨least, _, free⟩ := @firstFree_spec w.lowest w.address.toNat (w.requested start)
  obtain ⟨_, most, few, other⟩ := lastFree_spec free fits.1 fits.2
  refine ⟨isStart_iff.mpr ⟨rfl, fits.1⟩, ?_⟩
  obtain ⟨e, last⟩ := Int.eq_ofNat_of_zero_le ((Int.natCast_nonneg _).trans any)
  change w.last start limit ≤ _ at most
  change w.last start limit < (w.first start : Int) + _ at few
  change w.last start limit ≠ _ at other
  change w.lowest ≤ w.first start at least
  change w.first start ≠ _ at free
  rw [last] at any most few other ⊢
  have host : w.IsHost e := isHost_iff.mpr (by omega)
  split
  · rename_i inside
    exact ⟨by omega, e, host, by omega, by omega⟩
  · rename_i outside
    refine ⟨by omega, isHost_iff.mpr ⟨least, fits.1⟩, host, ?_, fun inside => outside ?_⟩
    · rw [Int.toNat_natCast]
      omega
    · rw [Int.toNat_natCast] at inside
      omega

end Network

/-! ### The numbers of the program -/

section Numbers

variable {w : Network} {rest : List Text}

/-- What is read for a network. -/
def Network.parsed (w : Network) (rest : List Text) : Parsed :=
  ⟨w.address.toNat, netmaskOf w.length.val, decimal w.length.val, rest⟩

theorem hostmask_netmaskOf : hostmask (netmaskOf w.length.val) = w.size - 1 := by
  have ones := xor_ones (netmaskOf_lt w.length.val)
  have most : 2 ^ (32 - w.length.val) ≤ 2 ^ 32 := Nat.pow_le_pow_right (by decide) (Nat.sub_le _ _)
  have positive := w.size_pos
  refine Eq.trans ones ?_
  unfold netmaskOf upperBits Network.size at *
  omega

theorem and_netmaskOf : w.address.toNat &&& netmaskOf w.length.val = w.base :=
  and_upperBits w.address.toNat_lt (Nat.sub_le _ _)

theorem or_hostmask {y : Nat} (small : y < w.size) : w.base ||| y = w.base + y := or_low small

theorem lower_parsed : lower (w.parsed rest) = w.lowest := by
  rw [lower, Network.parsed, number_decimal, and_netmaskOf]
  rfl

theorem broadcast_parsed : w.base ||| hostmask (netmaskOf w.length.val) = w.top := by
  have positive := w.size_pos
  rw [hostmask_netmaskOf, or_hostmask (by omega), Network.top]

theorem upper_parsed : upper (w.parsed rest) = w.highest := by
  rw [upper, Network.parsed, number_decimal, and_netmaskOf]
  dsimp only
  rw [broadcast_parsed, Network.highest]
  split
  · rfl
  · split
    · rfl
    · have single : w.length.val = 32 := by omega
      rw [Network.top, Network.size, single]
      rfl

theorem rangeStart_parsed {start : UInt32} : rangeStart (w.parsed rest) start.toNat = w.first start := by
  have host : start.toNat &&& hostmask (netmaskOf w.length.val) = start.toNat % w.size := by
    rw [hostmask_netmaskOf]
    exact Nat.and_two_pow_sub_one_eq_mod _ _
  have raised (r lo : Nat) : (if r < lo then lo else r) = max lo r := by
    split <;> omega
  rw [rangeStart, lower_parsed, Network.parsed, and_netmaskOf, host, or_hostmask (Nat.mod_lt _ w.size_pos)]
  dsimp only
  rw [raised]
  rfl

theorem rangeEnd_parsed {start limit : UInt32} :
    rangeEnd (w.parsed rest) (w.first start) limit.toNat = w.last start limit := by
  rw [rangeEnd, upper_parsed]
  rfl

end Numbers

/-! ### The arguments -/

section Arguments

variable {n : Nat} {a m : UInt32} {w : Network} {rest : List Text} {c : Char} {front back : Text}

theorem afterFirst_append (without : c ∉ front) : afterFirst c (front ++ c :: back) = back := by
  have other : ∀ x ∈ front, decide (x ≠ c) = true := by
    rintro x member
    rw [decide_eq_true_iff]
    rintro rfl
    exact without member
  rw [afterFirst, List.dropWhile_append_of_pos other]
  simp

theorem beforeLast_append (without : c ∉ back) : beforeLast c (front ++ c :: back) = front := by
  have reversed := @afterFirst_append c back.reverse front.reverse (mt List.mem_reverse.mp without)
  rw [beforeLast, List.reverse_append, List.reverse_cons, List.append_assoc, List.singleton_append]
  rw [afterFirst] at reversed
  rw [reversed, List.reverse_reverse]

theorem not_mem_decimal (other : c.isDigit = false) : c ∉ decimal n := by
  intro member
  rw [isDigit_decimal member] at other
  cases other

theorem not_mem_quad (other : c.isDigit = false) (noDot : c ≠ '.') : c ∉ quad n := by
  simp only [quad, List.mem_append, List.mem_cons, not_mem_decimal other, noDot, or_self, not_false_eq_true]

theorem dot_mem_quad : '.' ∈ quad n := by
  simp only [quad, List.mem_append, List.mem_cons, true_or, or_true]

/-- How the mask is given. -/
inductive Form where
  | length
  | slash
  | two

/-- The address and the mask. -/
def Form.texts (form : Form) (a : UInt32) (length : Nat) (m : UInt32) : List Text :=
  match form with
  | .length => [quad a.toNat ++ '/' :: decimal length]
  | .slash => [quad a.toNat ++ '/' :: quad m.toNat]
  | .two => [quad a.toNat, quad m.toNat]

theorem parse_slash : parse ((quad a.toNat ++ '/' :: quad m.toNat) :: rest) =
    (netmask2Prefix m.toNat).map fun length => ⟨a.toNat, m.toNat, decimal length, rest⟩ := by
  have noSlash (n : Nat) : '/' ∉ quad n := not_mem_quad rfl (by decide)
  rw [parse, if_pos (List.mem_append_right _ List.mem_cons_self), afterFirst_append (noSlash _), if_pos dot_mem_quad,
    beforeLast_append (noSlash _), str2ip_quad a.toNat_lt, str2ip_quad m.toNat_lt]
  simp only [Option.bind_eq_bind, Option.bind_some]
  cases netmask2Prefix m.toNat <;> rfl

theorem parse_two : parse (quad a.toNat :: quad m.toNat :: rest) =
    (netmask2Prefix m.toNat).map fun length => ⟨a.toNat, m.toNat, decimal length, rest⟩ := by
  rw [parse, if_neg (not_mem_quad rfl (by decide)), str2ip_quad a.toNat_lt, List.headD_cons, str2ip_quad m.toNat_lt]
  simp only [Option.bind_eq_bind, Option.bind_some, List.tail_cons]
  cases netmask2Prefix m.toNat <;> rfl

theorem parse_length : parse ((quad w.address.toNat ++ '/' :: decimal w.length.val) :: rest) = some (w.parsed rest) := by
  have valid : w.length.val ≤ 32 := Nat.le_of_lt_succ w.length.isLt
  have noSlash : '/' ∉ decimal w.length.val := not_mem_decimal rfl
  have noDot : '.' ∉ decimal w.length.val := not_mem_decimal rfl
  rw [parse, if_pos (List.mem_append_right _ List.mem_cons_self), afterFirst_append (not_mem_quad rfl (by decide)),
    if_neg noDot, beforeLast_append noSlash, str2ip_quad w.address.toNat_lt]
  simp only [Option.bind_eq_bind, Option.bind_some]
  rw [if_pos (assertUint32_of_lt (show w.length.val < 2 ^ 32 by omega)), number_decimal, if_neg (by omega),
    prefix2netmask_decimal valid]
  rfl

/-- All three ways to give the mask are read alike. -/
theorem parse_form {form : Form} (mask : m.toNat = netmaskOf w.length.val) :
    parse (form.texts w.address w.length.val m ++ rest) = some (w.parsed rest) := by
  have counted := netmask2Prefix_netmaskOf (Nat.le_of_lt_succ w.length.isLt)
  cases form with
  | length => exact parse_length
  | slash =>
    refine parse_slash.trans ?_
    rw [mask, counted]
    rfl
  | two =>
    refine parse_two.trans ?_
    rw [mask, counted]
    rfl

/-- The option for a style. -/
def Style.option : Style → List Text
  | .quads => []
  | .decimal => [['-', 'd']]
  | .hexadecimal => [['-', 'x']]

theorem options_option {style : Style} {first : Text} (noDash : '-' ∉ first) :
    options (style.option ++ first :: rest) = (style, first :: rest) := by
  cases style with
  | quads =>
    unfold options
    split
    · rename_i same
      cases same
      exact absurd List.mem_cons_self noDash
    · rename_i same
      cases same
      exact absurd List.mem_cons_self noDash
    · rfl
  | decimal => rfl
  | hexadecimal => rfl

end Arguments

/-! ### What is printed -/

/-- How a number is printed. -/
def Style.text (style : Style) (n : Nat) : Text :=
  match style with
  | .quads => quad n
  | .decimal => FirewallCore.BaseFiles.decimal n
  | .hexadecimal => Nat.toDigits 16 n

/-- The lines about a network. -/
def Network.lines (w : Network) (style : Style) : List Text :=
  [line "IP" (style.text w.address.toNat), line "NETMASK" (style.text (2 ^ 32 - w.size))] ++
    (if w.length.val ≤ 30 then [line "BROADCAST" (style.text w.top)] else []) ++
    [line "NETWORK" (style.text w.base), line "PREFIX" (decimal w.length.val), line "COUNT" (decimal w.size)]

section Output

variable {w : Network} {style : Style} {rest : List Text} {n : Nat} {start limit : UInt32}

theorem ip2strIn_decimal (small : n < 2 ^ 32) : ip2strIn style (decimal n) = some (style.text n) := by
  unfold ip2strIn
  rw [if_pos (assertUint32_of_lt small)]
  cases style with
  | quads => exact ip2str_decimal small
  | decimal => rfl
  | hexadecimal => exact congrArg (fun n => some (Nat.toDigits 16 n)) (number_decimal n)

theorem Network.top_lt : w.top < 2 ^ 32 := by
  have positive := w.size_pos
  have small := w.address.toNat_lt
  have whole : w.size ∣ 2 ^ 32 := Nat.pow_dvd_pow 2 (Nat.sub_le _ _)
  obtain ⟨k, multiple⟩ := whole
  have below : w.address.toNat / w.size < k := by
    rw [Nat.div_lt_iff_lt_mul positive, Nat.mul_comm]
    omega
  have next : w.size * (w.address.toNat / w.size + 1) ≤ w.size * k := Nat.mul_le_mul_left _ below
  rw [Nat.mul_succ] at next
  unfold Network.top Network.base
  omega

theorem printNetwork_parsed : printNetwork style (w.parsed rest) = ⟨w.lines style, 0⟩ := by
  have top := w.top_lt
  have positive := w.size_pos
  have base : w.base < 2 ^ 32 := by unfold Network.top at top; omega
  have count : w.size - 1 + 1 = w.size := by omega
  rw [printNetwork, Network.parsed]
  dsimp only
  rw [and_netmaskOf, broadcast_parsed, ip2strIn_decimal w.address.toNat_lt, ip2strIn_decimal (netmaskOf_lt _),
    ip2strIn_decimal base, ip2strIn_decimal top, number_decimal, hostmask_netmaskOf, count]
  dsimp only
  unfold Network.lines
  split <;> rfl

/-- The range is printed if it is right. -/
theorem printRange_parsed {before : List Text} :
    printRange (w.parsed rest) style before (decimal start.toNat) (decimal limit.toNat) =
      if w.last start limit < w.first start ∨ w.first start ≤ w.address.toNat ∧ w.address.toNat ≤ w.last start limit then
        ⟨before, 1⟩
      else ⟨before ++ [line "START" (style.text (w.first start)),
        line "END" (style.text (w.last start limit).toNat)], 0⟩ := by
  rw [printRange, if_neg (not_not.mpr (assertUint32_of_lt start.toNat_lt)),
    if_neg (not_not.mpr (assertUint32_of_lt limit.toNat_lt)), number_decimal, number_decimal, rangeStart_parsed]
  dsimp only
  rw [rangeEnd_parsed]
  rcases Int.lt_or_le (w.last start limit) (w.first start) with less | any
  · rw [if_pos less, if_pos (.inl less)]
  · obtain ⟨starts, ends⟩ := Network.range_spec any
    rw [if_neg (Int.not_lt.mpr any)]
    by_cases inside : w.first start ≤ w.address.toNat ∧ w.address.toNat ≤ w.last start limit
    · rw [if_pos (.inr inside)]
      split
      · exact if_pos inside
      · rfl
    · rw [if_neg inside] at ends
      obtain ⟨ordered, first, last, _⟩ := ends
      have top := w.top_lt
      have text : signed (w.last start limit) = decimal (w.last start limit).toNat := if_neg (by omega)
      rw [if_neg (by omega), text, ip2strIn_decimal (first.1.2.trans_lt top), ip2strIn_decimal (last.1.2.trans_lt top)]
      exact if_neg inside

end Output

/-! ### Requests -/

/-- A network and how it is to be printed, and the start and the number of addresses of a range. -/
structure Request where
  style : Style
  network : Network
  range : Option (UInt32 × UInt32)

namespace Request

variable (r : Request)

def rangeTexts : List Text :=
  match r.range with
  | none => []
  | some (start, limit) => [decimal start.toNat, decimal limit.toNat]

/-- The arguments with the mask in one of the three ways. -/
def arguments (form : Form) : List Text :=
  r.style.option ++ (form.texts r.network.address r.network.length.val (UInt32.ofNat (2 ^ 32 - r.network.size)) ++
    r.rangeTexts)

/-- A right answer: the network and, if asked for, a right range or, if there is none or the address is
inside of it, an error. -/
def Answered (out : Run) : Prop :=
  match r.range with
  | none => out = ⟨r.network.lines r.style, 0⟩
  | some (start, limit) =>
    (∃ s e, out = ⟨r.network.lines r.style ++ [line "START" (r.style.text s), line "END" (r.style.text e)], 0⟩ ∧
      r.network.IsStart start s ∧ r.network.IsRange limit s e) ∨
    (out = ⟨r.network.lines r.style, 1⟩ ∧
      ((¬∃ s e, r.network.IsStart start s ∧ r.network.IsRange limit s e) ∨
        ∃ s, r.network.IsStart start s ∧ r.network.Inside limit s))

end Request

section Requests

variable {r : Request} {form : Form}

theorem toNat_netmask (w : Network) : (UInt32.ofNat (2 ^ 32 - w.size)).toNat = netmaskOf w.length.val :=
  UInt32.toNat_ofNat_of_lt (netmaskOf_lt w.length.val)

theorem texts_first (form : Form) (a : UInt32) (length : Nat) (m : UInt32) :
    ∃ first rest, form.texts a length m = first :: rest ∧ '-' ∉ first := by
  have noDash (n : Nat) : '-' ∉ quad n := not_mem_quad rfl (by decide)
  cases form with
  | length => exact ⟨_, _, rfl, by simp [noDash, not_mem_decimal]⟩
  | slash => exact ⟨_, _, rfl, by simp [noDash]⟩
  | two => exact ⟨_, _, rfl, noDash _⟩

/-- What is printed depends on what is parsed. -/
theorem ipcalc_arguments : ipcalc (r.arguments form) = match r.range with
    | none => ⟨r.network.lines r.style, 0⟩
    | some (start, limit) => printRange (r.network.parsed r.rangeTexts) r.style (r.network.lines r.style)
        (decimal start.toNat) (decimal limit.toNat) := by
  have parsed := @parse_form _ _ r.rangeTexts form (toNat_netmask r.network)
  obtain ⟨first, rest, texts, noDash⟩ := texts_first form r.network.address r.network.length.val
    (UInt32.ofNat (2 ^ 32 - r.network.size))
  unfold ipcalc Request.arguments
  rw [texts, List.cons_append] at parsed ⊢
  rw [options_option noDash]
  dsimp only
  rw [parsed]
  dsimp only
  rw [printNetwork_parsed]
  obtain ⟨style, w, range⟩ := r
  cases range with
  | none => rfl
  | some range =>
    obtain ⟨start, limit⟩ := range
    have given : ¬(decimal start.toNat = [] ∧ decimal limit.toNat = []) := fun empty => decimal_ne_nil _ empty.1
    dsimp only [Network.parsed, Request.rangeTexts]
    rw [if_neg given]
    rfl

/-- A mask that is not one of a prefix length is refused. -/
theorem ipcalc_mask {style : Style} {a m : UInt32} {rest : List Text}
    (other : ¬∃ length ≤ 32, m.toNat = netmaskOf length) :
    ipcalc (style.option ++ (quad a.toNat ++ '/' :: quad m.toNat) :: rest) = ⟨[], 1⟩ ∧
      ipcalc (style.option ++ quad a.toNat :: quad m.toNat :: rest) = ⟨[], 1⟩ := by
  have refused := netmask2Prefix_none m.toNat_lt other
  have noDash (n : Nat) : '-' ∉ quad n := not_mem_quad rfl (by decide)
  constructor
  · have parsed := @parse_slash a m rest
    rw [refused] at parsed
    unfold ipcalc
    rw [options_option (by simp [noDash])]
    dsimp only
    rw [parsed]
    rfl
  · have parsed := @parse_two a m rest
    rw [refused] at parsed
    unfold ipcalc
    rw [options_option (noDash _)]
    dsimp only
    rw [parsed]
    rfl

/-- All three ways to give a mask have the same answer, which is right; other masks are refused. -/
theorem ipcalc_right : (∀ r : Request, (∀ form form', ipcalc (r.arguments form) = ipcalc (r.arguments form')) ∧
      ∀ form, r.Answered (ipcalc (r.arguments form))) ∧
    ∀ (style : Style) (a m : UInt32) (rest : List Text), (∃ length ≤ 32, m.toNat = netmaskOf length) ∨
      (ipcalc (style.option ++ (quad a.toNat ++ '/' :: quad m.toNat) :: rest) = ⟨[], 1⟩ ∧
        ipcalc (style.option ++ quad a.toNat :: quad m.toNat :: rest) = ⟨[], 1⟩) := by
  refine ⟨fun r => ⟨fun form form' => ipcalc_arguments.trans ipcalc_arguments.symm, fun form => ?_⟩,
    fun style a m rest => ?_⟩
  · rw [ipcalc_arguments]
    obtain ⟨style, w, range⟩ := r
    cases range with
    | none => exact rfl
    | some range =>
      obtain ⟨start, limit⟩ := range
      dsimp only
      rw [printRange_parsed]
      rcases Int.lt_or_le (w.last start limit) (w.first start) with less | any
      · rw [if_pos (.inl less)]
        exact .inr ⟨rfl, .inl (Network.no_range less)⟩
      · obtain ⟨starts, ends⟩ := Network.range_spec any
        split at ends
        · rename_i inside
          rw [if_pos (.inr inside)]
          exact .inr ⟨rfl, .inr ⟨_, starts, ends⟩⟩
        · rename_i outside
          rw [if_neg (not_or.mpr ⟨Int.not_lt.mpr any, outside⟩)]
          exact .inl ⟨_, _, rfl, starts, ends⟩
  · by_cases contiguous : ∃ length ≤ 32, m.toNat = netmaskOf length
    · exact .inl contiguous
    · exact .inr (ipcalc_mask contiguous)

end Requests

end FirewallCore.BaseFiles
