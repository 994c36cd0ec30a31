import FirewallCore.Client.Persistent
import FirewallCore.Dhcpd.Config
import FirewallCore.Net.AddrText

/-!
The identifiers of a persistent client as text (`client/persistent.go`):
`SetIDs` reads them, `IDs` writes what the configuration file stores, and
`EqualIDs` compares them.

`netutil.ValidateHostnameLabel` is not part of the repository and is a
parameter. It returns the text of its error, and `none` for a valid label.
-/

namespace FirewallCore.Client

open FirewallCore.Net

/-- `slices.SortFunc`. A comparison that tells different elements apart leaves no choice. -/
def sortFunc {α : Type} (cmp : α → α → Ordering) (l : List α) : List α :=
  l.mergeSort fun a b => (cmp a b).isLE

/-- `strings.ToLower` on ASCII text. -/
def toLower (s : String) : String := String.ofList (s.toList.map Char.toLower)

/-- `ValidateClientID`: the text of the error. -/
def validateClientID (validateHostnameLabel : String → Option String) (id : String) : Option String :=
  (validateHostnameLabel id).map fun err => "invalid clientid " ++ id.quote ++ ": " ++ err

namespace Persistent

variable (validateHostnameLabel : String → Option String)

/-- `setID`. -/
def setID (c : Persistent) (id : String) : Except String Persistent :=
  if id = "" then .error "clientid is empty"
  else
    match parseAddr id with
    | some ip => .ok { c with ips := c.ips ++ [ip] }
    | none =>
      match parsePrefix id with
      | some subnet => .ok { c with subnets := c.subnets ++ [subnet] }
      | none =>
        match parseMAC id with
        | some mac => .ok { c with macs := c.macs ++ [mac] }
        | none =>
          match validateClientID validateHostnameLabel id with
          | some err => .error err
          | none => .ok { c with clientIDs := c.clientIDs ++ [toLower id] }

/-- The loop of `SetIDs`: the client as far as it got, and the error. -/
def setEach (c : Persistent) : List String → Persistent × Option String
  | [] => (c, none)
  | id :: ids =>
    match c.setID validateHostnameLabel id with
    | .error err => (c, some err)
    | .ok c => c.setEach ids

/-- The identifiers in order. -/
def sortIDs (c : Persistent) : Persistent :=
  { c with
    ips := sortFunc Addr.compare c.ips
    subnets := sortFunc subnetCompare c.subnets
    macs := sortFunc compare c.macs
    clientIDs := sortFunc compare c.clientIDs }

/-- `SetIDs`. -/
def setIDs (c : Persistent) (ids : List String) : Persistent × Option String :=
  match c.setEach validateHostnameLabel ids with
  | (c, some err) => (c, some err)
  | (c, none) => (c.sortIDs, none)

/-- `IDs`. -/
def ids (c : Persistent) : List String :=
  c.ips.map Addr.string ++ c.subnets.map Prefix.string ++ c.macs.map macString ++ c.clientIDs

/-- `EqualIDs`. -/
def equalIDs (c prev : Persistent) : Bool :=
  c.ips == prev.ips && c.subnets == prev.subnets && c.macs == prev.macs &&
    c.clientIDs == prev.clientIDs

/-- A client without identifiers. -/
def Fresh (c : Persistent) : Prop := c.ips = [] ∧ c.subnets = [] ∧ c.macs = [] ∧ c.clientIDs = []

/-- Clients whose identifiers have been accepted. -/
inductive Accepted : Persistent → Prop where
  | fresh {c : Persistent} : c.Fresh → Accepted c
  | setIDs {c c' : Persistent} {ids : List String} :
      Accepted c → c.setIDs validateHostnameLabel ids = (c', none) → Accepted c'

end Persistent

/-- What the client storage relies on: a label has ASCII letters, digits and hyphens, and its case
does not matter. -/
structure LabelRules (validateHostnameLabel : String → Option String) : Prop where
  chars : ∀ s, validateHostnameLabel s = none → ∀ c ∈ s.toList, c.isAlphanum = true ∨ c = '-'
  lower : ∀ s, validateHostnameLabel s = none → validateHostnameLabel (toLower s) = none

/-! ### Sorting -/

section Sorting

variable {α : Type} {cmp : α → α → Ordering} {l : List α}

theorem mem_sortFunc {x : α} : x ∈ sortFunc cmp l ↔ x ∈ l := List.mem_mergeSort

theorem sortFunc_sorted [Std.TransCmp cmp] (l : List α) :
    (sortFunc cmp l).Pairwise fun a b => (cmp a b).isLE = true := by
  apply List.pairwise_mergeSort
  · intro a b c
    exact Std.TransCmp.isLE_trans
  · intro a b
    cases order : cmp a b with
    | lt => rfl
    | eq => rfl
    | gt =>
      have other : cmp b a = .lt := Std.OrientedCmp.lt_of_gt order
      rw [other]
      rfl

theorem sortFunc_of_sorted (sorted : l.Pairwise fun a b => (cmp a b).isLE = true) : sortFunc cmp l = l :=
  List.mergeSort_of_pairwise sorted

end Sorting

/-! ### Lower case -/

section Lower

variable {c : Char} {s : List Char}

/-- Only the 26 letters change. -/
theorem toLower_cases (c : Char) : c.toLower = c ∨ ∃ n < 26, c = Char.ofNat (65 + n) := by
  by_cases upper : 65 ≤ c.toNat ∧ c.toNat ≤ 90
  · refine .inr ⟨c.toNat - 65, by omega, ?_⟩
    rw [Nat.add_sub_cancel' upper.1, Char.ofNat_toNat]
  · refine .inl ?_
    unfold Char.toLower
    rw [dif_neg]
    intro letter
    exact upper ⟨UInt32.le_iff_toNat_le.mp letter.1, UInt32.le_iff_toNat_le.mp letter.2⟩

theorem hexVal_toLower (c : Char) : Lib.hexVal c.toLower = Lib.hexVal c := by
  rcases toLower_cases c with same | ⟨n, small, rfl⟩
  · rw [same]
  · interval_cases n <;> decide

theorem toLower_eq_iff {sep : Char} (other : sep = '-' ∨ sep = ':' ∨ sep = '.') : c.toLower = sep ↔ c = sep := by
  rcases toLower_cases c with same | ⟨n, small, rfl⟩
  · rw [same]
  · rcases other with rfl | rfl | rfl <;> interval_cases n <;> decide

theorem toLower_idem (c : Char) : c.toLower.toLower = c.toLower := by
  rcases toLower_cases c with same | ⟨n, small, rfl⟩
  · rw [same, same]
  · interval_cases n <;> decide

theorem readByte_toLower (a b : Char) : readByte a.toLower b.toLower = readByte a b := by
  rw [readByte, readByte, hexVal_toLower, hexVal_toLower]

theorem readPairs_toLower {sep : Char} (other : sep = '-' ∨ sep = ':' ∨ sep = '.') :
    ∀ s : List Char, readPairs sep (s.map Char.toLower) = readPairs sep s
  | [] => rfl
  | [_] => rfl
  | [a, b] => by simp only [List.map_cons, List.map_nil, readPairs, readByte_toLower]
  | a :: b :: c :: rest => by
    have later := readPairs_toLower other rest
    simp only [List.map_cons, readPairs, readByte_toLower, later, toLower_eq_iff other]

theorem readQuads_toLower : ∀ s : List Char, readQuads (s.map Char.toLower) = readQuads s
  | [] => rfl
  | [_] => rfl
  | [_, _] => rfl
  | [_, _, _] => rfl
  | [a, b, c, d] => by simp only [List.map_cons, List.map_nil, readQuads, readByte_toLower]
  | a :: b :: c :: d :: e :: rest => by
    have later := readQuads_toLower rest
    simp only [List.map_cons, readQuads, readByte_toLower, later, toLower_eq_iff (.inr (.inr rfl))]

/-- The case of a hardware address does not matter. -/
theorem parseMAC_toLower (s : String) : parseMAC (toLower s) = parseMAC s := by
  have position : ∀ (i : Nat) (sep : Char), sep = '-' ∨ sep = ':' ∨ sep = '.' →
      ((s.toList.map Char.toLower)[i]? = some sep ↔ s.toList[i]? = some sep) := by
    intro i sep other
    cases found : s.toList[i]? with
    | none => simp [found]
    | some c => simp [found, toLower_eq_iff other]
  rw [parseMAC, toLower, String.toList_ofList, parseMACChars, List.length_map,
    readPairs_toLower (.inr (.inl rfl)), readPairs_toLower (.inl rfl), readQuads_toLower]
  simp only [position 2 ':' (.inr (.inl rfl)), position 2 '-' (.inl rfl), position 4 '.' (.inr (.inr rfl))]
  rfl

theorem toLower_toLower (s : String) : toLower (toLower s) = toLower s := by
  simp only [toLower, String.toList_ofList, List.map_map]
  congr 1
  apply List.map_congr_left
  intro c _
  exact toLower_idem c

theorem toLower_ne_empty {s : String} (some : s ≠ "") : toLower s ≠ "" := by
  intro empty
  have none : s.toList = [] := by simpa [toLower] using empty
  exact some (String.toList_eq_nil_iff.mp none)

end Lower

/-! ### What is accepted -/

section Accepted

variable {validateHostnameLabel : String → Option String} {c c' : Persistent} {id : String}

/-- A ClientID as it is stored. -/
structure StoredID (validateHostnameLabel : String → Option String) (id : String) : Prop where
  nonempty : id ≠ ""
  notAddr : parseAddr id = none
  notPrefix : parsePrefix id = none
  notMAC : parseMAC id = none
  valid : validateHostnameLabel id = none
  lower : toLower id = id

/-- The identifiers that can be accepted. -/
structure Identified (validateHostnameLabel : String → Option String) (c : Persistent) : Prop where
  ips : ∀ ip ∈ c.ips, ip.isValid = true
  subnets : ∀ p ∈ c.subnets, p.Parsed
  macs : ∀ mac ∈ c.macs, mac.length ∈ [6, 8, 20]
  clientIDs : ∀ id ∈ c.clientIDs, StoredID validateHostnameLabel id

/-- The identifiers are in order. -/
structure Ordered (c : Persistent) : Prop where
  ips : c.ips.Pairwise fun a b => (a.compare b).isLE = true
  subnets : c.subnets.Pairwise fun a b => (subnetCompare a b).isLE = true
  macs : c.macs.Pairwise fun a b => (compare a b).isLE = true
  clientIDs : c.clientIDs.Pairwise fun a b => (compare a b).isLE = true

/-- A label is neither an address nor a prefix. -/
theorem label_not_addr (rules : LabelRules validateHostnameLabel) (valid : validateHostnameLabel id = none) :
    parseAddr id = none ∧ parsePrefix id = none := by
  have chars := rules.chars id valid
  constructor
  · have first : id.toList.find? (fun c => c = '.' || c = ':' || c = '%') = none := by
      rw [List.find?_eq_none]
      intro c member special
      simp only [Bool.or_eq_true, decide_eq_true_eq] at special
      rcases special with (rfl | rfl) | rfl
      · exact absurd (chars _ member) (by decide)
      · exact absurd (chars _ member) (by decide)
      · exact absurd (chars _ member) (by decide)
    rw [parseAddr, parseAddrChars, first]
  · apply parsePrefixChars_none
    intro member
    exact absurd (chars _ member) (by decide)

/-- A ClientID that is accepted can be stored. -/
theorem stored_toLower (rules : LabelRules validateHostnameLabel) (some : id ≠ "")
    (notMAC : parseMAC id = none) (valid : validateHostnameLabel id = none) :
    StoredID validateHostnameLabel (toLower id) := by
  have lower := rules.lower id valid
  obtain ⟨notAddr, notPrefix⟩ := label_not_addr rules lower
  exact ⟨toLower_ne_empty some, notAddr, notPrefix, (parseMAC_toLower id).trans notMAC, lower, toLower_toLower id⟩

theorem setID_cases (done : c.setID validateHostnameLabel id = .ok c') :
    (∃ ip, parseAddr id = some ip ∧ c' = { c with ips := c.ips ++ [ip] }) ∨
      (∃ subnet, parsePrefix id = some subnet ∧ c' = { c with subnets := c.subnets ++ [subnet] }) ∨
      (∃ mac, parseMAC id = some mac ∧ c' = { c with macs := c.macs ++ [mac] }) ∨
      (id ≠ "" ∧ parseMAC id = none ∧ validateHostnameLabel id = none ∧
        c' = { c with clientIDs := c.clientIDs ++ [toLower id] }) := by
  unfold Persistent.setID at done
  split at done
  · cases done
  rename_i some
  split at done
  · rename_i ip found
    cases done
    exact .inl ⟨ip, found, rfl⟩
  split at done
  · rename_i subnet found
    cases done
    exact .inr (.inl ⟨subnet, found, rfl⟩)
  split at done
  · rename_i mac found
    cases done
    exact .inr (.inr (.inl ⟨mac, found, rfl⟩))
  rename_i noMAC
  split at done
  · cases done
  · rename_i valid
    cases done
    exact .inr (.inr (.inr ⟨some, noMAC, Option.map_eq_none_iff.mp valid, rfl⟩))

theorem forall_mem_concat {α : Type} {P : α → Prop} {l : List α} {x : α} (all : ∀ y ∈ l, P y) (last : P x) :
    ∀ y ∈ l ++ [x], P y := by
  rw [List.forall_mem_append]
  exact ⟨all, by simpa using last⟩

theorem setID_identified (rules : LabelRules validateHostnameLabel)
    (known : Identified validateHostnameLabel c) (done : c.setID validateHostnameLabel id = .ok c') :
    Identified validateHostnameLabel c' := by
  rcases setID_cases done with ⟨ip, found, rfl⟩ | ⟨subnet, found, rfl⟩ | ⟨mac, found, rfl⟩ |
    ⟨some, noMAC, valid, rfl⟩
  · exact { known with ips := forall_mem_concat known.ips (parseAddrChars_valid found) }
  · exact { known with subnets := forall_mem_concat known.subnets (parsePrefixChars_parsed found) }
  · exact { known with macs := forall_mem_concat known.macs (parseMAC_length found) }
  · have stored := stored_toLower rules some noMAC valid
    exact { known with clientIDs := forall_mem_concat known.clientIDs stored }

theorem setEach_identified (rules : LabelRules validateHostnameLabel) {ids : List String}
    (known : Identified validateHostnameLabel c) :
    Identified validateHostnameLabel (c.setEach validateHostnameLabel ids).1 := by
  induction ids generalizing c with
  | nil => exact known
  | cons id ids ih =>
    rw [Persistent.setEach]
    cases done : c.setID validateHostnameLabel id with
    | error err => exact known
    | ok next => exact ih (setID_identified rules known done)

theorem sortIDs_identified (known : Identified validateHostnameLabel c) :
    Identified validateHostnameLabel c.sortIDs where
  ips := fun ip member => known.ips ip (mem_sortFunc.mp member)
  subnets := fun p member => known.subnets p (mem_sortFunc.mp member)
  macs := fun mac member => known.macs mac (mem_sortFunc.mp member)
  clientIDs := fun id member => known.clientIDs id (mem_sortFunc.mp member)

theorem sortIDs_ordered (c : Persistent) : Ordered c.sortIDs where
  ips := sortFunc_sorted c.ips
  subnets := sortFunc_sorted c.subnets
  macs := sortFunc_sorted c.macs
  clientIDs := sortFunc_sorted c.clientIDs

theorem sortIDs_of_ordered (ordered : Ordered c) : c.sortIDs = c := by
  rw [Persistent.sortIDs, sortFunc_of_sorted ordered.ips, sortFunc_of_sorted ordered.subnets,
    sortFunc_of_sorted ordered.macs, sortFunc_of_sorted ordered.clientIDs]

theorem setIDs_ok {ids : List String} (done : c.setIDs validateHostnameLabel ids = (c', none)) :
    c' = (c.setEach validateHostnameLabel ids).1.sortIDs := by
  unfold Persistent.setIDs at done
  split at done
  · cases done
  · rename_i each
    rw [each]
    exact (Prod.mk.inj done).1.symm

/-- The identifiers of an accepted client. -/
theorem accepted_identified (rules : LabelRules validateHostnameLabel)
    (accepted : c.Accepted validateHostnameLabel) : Identified validateHostnameLabel c ∧ Ordered c := by
  induction accepted with
  | fresh none =>
    obtain ⟨ips, subnets, macs, clientIDs⟩ := none
    exact ⟨⟨by simp [ips], by simp [subnets], by simp [macs], by simp [clientIDs]⟩,
      ⟨by simp [ips], by simp [subnets], by simp [macs], by simp [clientIDs]⟩⟩
  | setIDs _ done ih =>
    rw [setIDs_ok done]
    exact ⟨sortIDs_identified (setEach_identified rules ih.1), sortIDs_ordered _⟩

end Accepted

/-! ### Reading what was written -/

section Reload

variable {validateHostnameLabel : String → Option String} {c d : Persistent}

theorem addr_string_ne (a : Addr) (valid : a.isValid = true) : a.string ≠ "" := by
  intro empty
  have read := parseAddr_string valid
  rw [empty] at read
  cases read

theorem setID_ip {ip : Addr} (valid : ip.isValid = true) :
    d.setID validateHostnameLabel ip.string = .ok { d with ips := d.ips ++ [ip] } := by
  have some := addr_string_ne ip valid
  rw [Persistent.setID, if_neg some, parseAddr_string valid]

theorem setID_subnet {p : Prefix} (parsed : p.Parsed) :
    d.setID validateHostnameLabel p.string = .ok { d with subnets := d.subnets ++ [p] } := by
  have read := parsePrefix_string parsed
  have some : p.string ≠ "" := by
    intro empty
    rw [empty] at read
    cases read
  rw [Persistent.setID, if_neg some, parseAddr_prefix parsed]
  simp only [read]

theorem setID_clientID {id : String} (stored : StoredID validateHostnameLabel id) :
    d.setID validateHostnameLabel id = .ok { d with clientIDs := d.clientIDs ++ [id] } := by
  rw [Persistent.setID, if_neg stored.nonempty, stored.notAddr, stored.notPrefix, stored.notMAC]
  simp [validateClientID, stored.valid, stored.lower]

/-- The IP address that the text of an 8-byte hardware address stands for. -/
def macAddr (mac : HardwareAddr) : Addr :=
  .v6 (BitVec.ofNat 128 (ofDigits 16 (mac.map (·.toNat)))) ""

theorem setID_mac {mac : HardwareAddr} (length : mac.length ∈ [6, 8, 20]) :
    d.setID validateHostnameLabel (macString mac) =
      .ok (if mac.length = 8 then { d with ips := d.ips ++ [macAddr mac] }
        else { d with macs := d.macs ++ [mac] }) := by
  have read := parseMAC_macString length
  have some : macString mac ≠ "" := by
    intro empty
    rw [empty] at read
    cases read
  rw [Persistent.setID, if_neg some]
  by_cases eight : mac.length = 8
  · rw [parseAddr_macString_eight eight, if_pos eight]
    rfl
  · have others : mac.length = 6 ∨ mac.length = 20 := by
      simp only [List.mem_cons, List.not_mem_nil, or_false] at length
      omega
    rw [parseAddr_macString_none others, parsePrefix_macString, read, if_neg eight]

/-- Texts that are all accepted are read one after the other. -/
theorem setEach_map {α : Type} {text : α → String} {add : Persistent → α → Persistent} {l : List α}
    {rest : List String} (reads : ∀ x ∈ l, ∀ d : Persistent, d.setID validateHostnameLabel (text x) = .ok (add d x)) :
    d.setEach validateHostnameLabel (l.map text ++ rest) =
      (l.foldl add d).setEach validateHostnameLabel rest := by
  induction l generalizing d with
  | nil => rfl
  | cons x l ih =>
    rw [List.forall_mem_cons] at reads
    rw [List.map_cons, List.cons_append, Persistent.setEach, reads.1 d]
    exact ih reads.2

theorem foldl_ips (ips : List Addr) (d : Persistent) :
    ips.foldl (fun d ip => { d with ips := d.ips ++ [ip] }) d = { d with ips := d.ips ++ ips } := by
  induction ips generalizing d with
  | nil => simp
  | cons ip ips ih => simp [ih]

theorem foldl_subnets (subnets : List Prefix) (d : Persistent) :
    subnets.foldl (fun d p => { d with subnets := d.subnets ++ [p] }) d =
      { d with subnets := d.subnets ++ subnets } := by
  induction subnets generalizing d with
  | nil => simp
  | cons p subnets ih => simp [ih]

theorem foldl_clientIDs (clientIDs : List String) (d : Persistent) :
    clientIDs.foldl (fun d id => { d with clientIDs := d.clientIDs ++ [id] }) d =
      { d with clientIDs := d.clientIDs ++ clientIDs } := by
  induction clientIDs generalizing d with
  | nil => simp
  | cons id clientIDs ih => simp [ih]

theorem foldl_macs (macs : List HardwareAddr) (d : Persistent) :
    macs.foldl (fun d mac => if mac.length = 8 then { d with ips := d.ips ++ [macAddr mac] }
        else { d with macs := d.macs ++ [mac] }) d =
      { d with
        ips := d.ips ++ (macs.filter (·.length = 8)).map macAddr
        macs := d.macs ++ macs.filter (·.length ≠ 8) } := by
  induction macs generalizing d with
  | nil => simp
  | cons mac macs ih =>
    by_cases eight : mac.length = 8
    · simp [ih, eight]
    · simp [ih, eight]

/-- What is read of the identifiers that were written: hardware addresses of 8 bytes come back as
IP addresses. -/
theorem setEach_ids (known : Identified validateHostnameLabel c) (fresh : d.Fresh) :
    d.setEach validateHostnameLabel c.ids =
      ({ d with
        ips := c.ips ++ (c.macs.filter (·.length = 8)).map macAddr
        subnets := c.subnets
        macs := c.macs.filter (·.length ≠ 8)
        clientIDs := c.clientIDs }, none) := by
  obtain ⟨ips, subnets, macs, clientIDs⟩ := fresh
  have last : c.clientIDs = c.clientIDs.map (fun id => id) ++ [] := by simp
  rw [Persistent.ids, List.append_assoc, List.append_assoc,
    setEach_map fun ip member d => setID_ip (known.ips ip member), foldl_ips,
    setEach_map fun p member d => setID_subnet (known.subnets p member), foldl_subnets,
    setEach_map fun mac member d => setID_mac (known.macs mac member), foldl_macs, last,
    setEach_map fun id member d => setID_clientID (known.clientIDs id member), foldl_clientIDs]
  simp [Persistent.setEach, ips, subnets, macs, clientIDs]

/-- Reading the identifiers that were written gives the same ones if and only if no hardware address
has 8 bytes. -/
theorem reload_iff (rules : LabelRules validateHostnameLabel)
    (accepted : c.Accepted validateHostnameLabel) (fresh : d.Fresh) :
    (∃ c', d.setIDs validateHostnameLabel c.ids = (c', none) ∧ c'.ips = c.ips ∧ c'.subnets = c.subnets ∧
        c'.macs = c.macs ∧ c'.clientIDs = c.clientIDs ∧ c'.equalIDs c = true) ↔
      ∀ mac ∈ c.macs, mac.length ≠ 8 := by
  obtain ⟨known, ordered⟩ := accepted_identified rules accepted
  have each := setEach_ids known fresh
  constructor
  · rintro ⟨c', done, -, -, macs, -⟩
    rw [setIDs_ok done, each] at macs
    intro mac member
    rw [← macs] at member
    exact of_decide_eq_true (List.mem_filter.mp (mem_sortFunc.mp member)).2
  · intro none
    have kept : c.macs.filter (·.length ≠ 8) = c.macs := by
      rw [List.filter_eq_self]
      intro mac member
      exact decide_eq_true (none mac member)
    have lost : c.macs.filter (·.length = 8) = [] := by
      rw [List.filter_eq_nil_iff]
      intro mac member
      simpa using none mac member
    rw [kept, lost, List.map_nil, List.append_nil] at each
    have sorted := @sortIDs_of_ordered
      { d with ips := c.ips, subnets := c.subnets, macs := c.macs, clientIDs := c.clientIDs }
      ⟨ordered.ips, ordered.subnets, ordered.macs, ordered.clientIDs⟩
    refine ⟨{ d with ips := c.ips, subnets := c.subnets, macs := c.macs, clientIDs := c.clientIDs }, ?_,
      rfl, rfl, rfl, rfl, ?_⟩
    · rw [Persistent.setIDs, each]
      exact congrArg (·, Option.none) sorted
    · simp [Persistent.equalIDs]

end Reload

/-! ### A client with an 8-byte hardware address -/

/-- The documented behaviour of `ValidateHostnameLabel`. -/
def hostnameLabel (label : String) : Option String :=
  if Dhcpd.validLabel label.toList then none else some "bad hostname label"

theorem isAlphanum_toLower (c : Char) : c.toLower.isAlphanum = c.isAlphanum := by
  rcases toLower_cases c with same | ⟨n, small, rfl⟩
  · rw [same]
  · interval_cases n <;> decide

theorem validLabel_toLower (s : List Char) : Dhcpd.validLabel (s.map Char.toLower) = Dhcpd.validLabel s := by
  have hyphen : ∀ c : Char, (c.toLower == '-') = (c == '-') := by
    intro c
    rw [Bool.eq_iff_iff, beq_iff_eq, beq_iff_eq]
    exact toLower_eq_iff (.inl rfl)
  have edge : ∀ c : Option Char, (c.map Char.toLower != some '-') = (c != some '-') := by
    intro c
    cases c with
    | none => rfl
    | some c => rw [Option.map_some, bne, bne, Option.some_beq_some, Option.some_beq_some, hyphen]
  have inner : ∀ c : Char, (c.toLower.isAlphanum || c.toLower == '-') = (c.isAlphanum || c == '-') := by
    intro c
    rw [isAlphanum_toLower, hyphen]
  simp only [Dhcpd.validLabel, List.isEmpty_map, List.length_map, List.head?_map, List.getLast?_map, edge,
    List.all_map, Function.comp_def, inner]

theorem hostnameLabel_rules : LabelRules hostnameLabel where
  chars := by
    intro s valid c member
    unfold hostnameLabel at valid
    split at valid
    · rename_i label
      simp only [Dhcpd.validLabel, Bool.and_eq_true, List.all_eq_true, Bool.or_eq_true, beq_iff_eq] at label
      exact label.1.1.2 c member
    · cases valid
  lower := by
    intro s valid
    rw [hostnameLabel, toLower, String.toList_ofList, validLabel_toLower]
    exact valid

def noIDs (name : String) : Persistent := ⟨name, [], [], [], [], [], [], 1⟩

theorem noIDs_fresh (name : String) : (noIDs name).Fresh := ⟨rfl, rfl, rfl, rfl⟩

/-- A phone with an address, a subnet, a hardware address of 6 bytes and a ClientID. -/
def phone : Persistent :=
  { noIDs "phone" with
    ips := [.v4 0xc0a80102#32]
    subnets := [⟨.v6 0x20010db8000000000000000000000000#128 "", some 32⟩]
    macs := [[0xaa, 0xbb, 0xcc, 0xdd, 0xee, 0xff]]
    clientIDs := ["my-phone"] }

theorem phone_accepted : phone.Accepted hostnameLabel := by
  have each : (noIDs "phone").setEach hostnameLabel
      ["192.168.1.2", "2001:db8::/32", "AA-BB-CC-DD-EE-FF", "My-Phone"] = (phone, none) := by
    decide +kernel
  have done : (noIDs "phone").setIDs hostnameLabel
      ["192.168.1.2", "2001:db8::/32", "AA-BB-CC-DD-EE-FF", "My-Phone"] = (phone, none) := by
    rw [Persistent.setIDs, each]
    simp [Persistent.sortIDs, phone, noIDs, sortFunc]
  exact .setIDs (.fresh (noIDs_fresh "phone")) done

/-- The phone is read back from its identifiers. -/
theorem phone_reloads : ∃ c', (noIDs "copy").setIDs hostnameLabel phone.ids = (c', none) ∧
    c'.equalIDs phone = true := by
  have none : ∀ mac ∈ phone.macs, mac.length ≠ 8 := by decide
  obtain ⟨c', done, -, -, -, -, equal⟩ :=
    (reload_iff hostnameLabel_rules phone_accepted (noIDs_fresh "copy")).mpr none
  exact ⟨c', done, equal⟩

/-- A sensor with a hardware address of 8 bytes. -/
def sensor : Persistent := { noIDs "sensor" with macs := [[0x02, 0x00, 0x5e, 0x10, 0, 0, 0, 0x01]] }

theorem sensor_accepted : sensor.Accepted hostnameLabel := by
  have each : (noIDs "sensor").setEach hostnameLabel ["02-00-5e-10-00-00-00-01"] = (sensor, none) := by
    decide +kernel
  have done : (noIDs "sensor").setIDs hostnameLabel ["02-00-5e-10-00-00-00-01"] = (sensor, none) := by
    rw [Persistent.setIDs, each]
    simp [Persistent.sortIDs, sensor, noIDs, sortFunc]
  exact .setIDs (.fresh (noIDs_fresh "sensor")) done

/-- The sensor's address is read back as an IP address. -/
theorem sensor_does_not_reload :
    sensor.ids = ["02:00:5e:10:00:00:00:01"] ∧
      (noIDs "copy").setEach hostnameLabel sensor.ids =
        ({ noIDs "copy" with ips := [.v6 0x00020000005e00100000000000000001#128 ""] }, none) ∧
      ¬∀ (validateHostnameLabel : String → Option String), LabelRules validateHostnameLabel →
        ∀ c d : Persistent, c.Accepted validateHostnameLabel → d.Fresh →
        ∃ c', d.setIDs validateHostnameLabel c.ids = (c', none) ∧ c'.equalIDs c = true := by
  have ids : sensor.ids = ["02:00:5e:10:00:00:00:01"] := by decide +kernel
  have each : (noIDs "copy").setEach hostnameLabel sensor.ids =
      ({ noIDs "copy" with ips := [.v6 0x00020000005e00100000000000000001#128 ""] }, none) := by
    rw [ids]
    decide +kernel
  refine ⟨ids, each, ?_⟩
  intro all
  obtain ⟨c', done, equal⟩ := all hostnameLabel hostnameLabel_rules sensor (noIDs "copy") sensor_accepted
    (noIDs_fresh "copy")
  rw [setIDs_ok done, each] at equal
  simp [Persistent.equalIDs, Persistent.sortIDs, sortFunc, sensor, noIDs] at equal

end FirewallCore.Client
