import Mathlib.Data.BitVec
import Mathlib.Logic.Function.Basic
import FirewallCore.Lib.Strings
import FirewallCore.Dhcpd.Config

/-!
The options in the replies of the DHCPv4 server (`options_unix.go`, and
`configureDNSIPAddrs` and `updateOptions` of `v4_unix.go`).

There are three layers: a table of implicit values, the strings of the configuration,
which set or delete an option, and the parameter list of a request. `dhcpv4.Options` is
a map from codes to byte slices; a deleted option has the nil slice in it, which is
kept apart from the empty one. The parsers of the `golibs` packages are not part of the
repository and are the fields of an `OptionLib`.
-/

namespace FirewallCore.Dhcpd

open FirewallCore.Net FirewallCore.Lib

/-- A byte slice; `none` is the nil slice. -/
abbrev Bytes := Option (List UInt8)

/-- `dhcpv4.Options`. -/
abbrev Options := UInt8 → Option Bytes

namespace Options

def empty : Options := fun _ => none

def has (o : Options) (code : UInt8) : Bool := (o code).isSome

/-- `Get`; the nil slice when the code is absent. -/
def get (o : Options) (code : UInt8) : Bytes := (o code).getD none

def delete (o : Options) (code : UInt8) : Options := Function.update o code none

end Options

/-- The big-endian bytes of a number. -/
def bigEndian {w : Nat} (n : BitVec (8 * w)) : List UInt8 :=
  (List.range w).reverse.map fun i => UInt8.ofNat (n.toNat / 256 ^ i % 256)

/-- `dhcpv4.OptionValue`, by the types that are used. -/
inductive OptionValue where
  | generic (data : Bytes)
  | ip (ip : BitVec 32)
  | ips (ips : List (BitVec 32))
  | duration (d : Duration)
  | string (s : String)
  | uint16 (n : BitVec 16)
  deriving DecidableEq, Repr

/-- `ToBytes`. A list of addresses is written into a buffer that is nil at first, and a
duration in whole seconds. -/
def OptionValue.toBytes : OptionValue → Bytes
  | generic data => data
  | ip a => some (bigEndian (w := 4) a)
  | ips [] => none
  | ips (a :: rest) => some ((a :: rest).flatMap fun a => bigEndian (w := 4) a)
  | duration d => some (bigEndian (w := 4) (BitVec.ofInt 32 (d.tdiv second)))
  | string s => some s.toUTF8.toList
  | uint16 n => some (bigEndian (w := 2) n)

/-- `Update`. -/
def Options.update (o : Options) (code : UInt8) (value : OptionValue) : Options :=
  Function.update o code (some value.toBytes)

/-- `dhcpv4.OptionsFromList`. -/
def Options.fromList (list : List (UInt8 × OptionValue)) : Options :=
  list.foldl (fun o option => o.update option.1 option.2) .empty

/-! ### Reading the strings of the configuration -/

/-- The parsers from elsewhere: `netutil.ParseIPv4` and `UnmarshalText` of
`timeutil.Duration`. -/
structure OptionLib where
  parseIPv4 : String → Option (BitVec 32)
  parseDuration : String → Option Duration

inductive OptionErr where
  /-- "bad option format" -/
  | badFormat
  /-- "parsing option code: %w" -/
  | code (text : String)
  /-- "decoding hex: %w" -/
  | hex (text : String)
  | ip (text : String)
  /-- "parsing ip at index %d: %w" -/
  | ipAt (index : Nat) (text : String)
  /-- "decoding dur: %w" -/
  | dur (text : String)
  /-- "decoding u%d: %w" -/
  | uint (bitSize : Nat) (text : String)
  /-- "decoding bool: %w" -/
  | bool (text : String)
  /-- "unknown option type %q" -/
  | unknownType (typ : String)
  deriving DecidableEq, Repr

/-- `strconv.ParseUint` in base ten. -/
def parseUint (s : String) (bitSize : Nat) : Option Nat :=
  if s = "" then none
  else do
    let digits ← s.toList.mapM digitVal
    let n := digits.foldl (fun n d => 10 * n + d) 0
    if n < 2 ^ bitSize then some n else none

/-- `strconv.ParseBool`. -/
def parseBool (s : String) : Option Bool :=
  if s ∈ ["1", "t", "T", "TRUE", "true", "True"] then some true
  else if s ∈ ["0", "f", "F", "FALSE", "false", "False"] then some false
  else none

/-- `hex.DecodeString`. -/
def decodeHex : List Char → Option (List UInt8)
  | [] => some []
  | [_] => none
  | a :: b :: rest => do
    let high ← hexVal a
    let low ← hexVal b
    let bytes ← decodeHex rest
    return UInt8.ofNat (16 * high + low) :: bytes

def parseDHCPOptionHex (s : String) : Except OptionErr OptionValue :=
  match decodeHex s.toList with
  | some data => .ok (.generic (some data))
  | none => .error (.hex s)

def parseDHCPOptionIP (lib : OptionLib) (s : String) : Except OptionErr OptionValue :=
  match lib.parseIPv4 s with
  | some ip => .ok (.ip ip)
  | none => .error (.ip s)

/-- The loop of `parseDHCPOptionIPs` from index `i` on. -/
def parseIPsFrom (lib : OptionLib) (i : Nat) : List String → Except OptionErr (List (BitVec 32))
  | [] => .ok []
  | s :: rest =>
    match lib.parseIPv4 s with
    | none => .error (.ipAt i s)
    | some ip =>
      match parseIPsFrom lib (i + 1) rest with
      | .error err => .error err
      | .ok ips => .ok (ip :: ips)

def parseDHCPOptionIPs (lib : OptionLib) (s : String) : Except OptionErr OptionValue :=
  match parseIPsFrom lib 0 ((s.toList.splitOn ',').map String.ofList) with
  | .error err => .error err
  | .ok ips => .ok (.ips ips)

def parseDHCPOptionDur (lib : OptionLib) (s : String) : Except OptionErr OptionValue :=
  match lib.parseDuration s with
  | some d => .ok (.duration d)
  | none => .error (.dur s)

/-- `parseDHCPOptionUint`; `bitSize` is 8 or 16. -/
def parseDHCPOptionUint (s : String) (bitSize : Nat) : Except OptionErr OptionValue :=
  match parseUint s bitSize with
  | none => .error (.uint bitSize s)
  | some n =>
    if bitSize = 8 then .ok (.generic (some [UInt8.ofNat n]))
    else .ok (.uint16 (BitVec.ofNat 16 n))

def parseDHCPOptionBool (s : String) : Except OptionErr OptionValue :=
  match parseBool s with
  | none => .error (.bool s)
  | some v => .ok (.generic (some [if v then 1 else 0]))

/-- `parseDHCPOptionVal` parses the value of an option by its type. -/
def parseDHCPOptionVal (lib : OptionLib) (typ valStr : String) : Except OptionErr OptionValue :=
  match typ with
  | "bool" => parseDHCPOptionBool valStr
  | "del" => .ok (.generic none)
  | "dur" => parseDHCPOptionDur lib valStr
  | "hex" => parseDHCPOptionHex valStr
  | "ip" => parseDHCPOptionIP lib valStr
  | "ips" => parseDHCPOptionIPs lib valStr
  | "text" => .ok (.string valStr)
  | "u8" => parseDHCPOptionUint valStr 8
  | "u16" => parseDHCPOptionUint valStr 16
  | _ => .error (.unknownType typ)

/-- `unicode.IsSpace`. -/
def isSpace (c : Char) : Bool :=
  c ∈ ['\t', '\n', '\x0b', '\x0c', '\r', ' ', '\u0085', '\u00a0', '\u1680', '\u2028', '\u2029',
    '\u202f', '\u205f', '\u3000'] || ('\u2000' ≤ c && c ≤ '\u200a')

/-- `strings.TrimSpace`. -/
def trimSpace (s : List Char) : List Char :=
  ((s.dropWhile isSpace).reverse.dropWhile isSpace).reverse

/-- `strings.SplitN(s, " ", n + 1)`. -/
def splitSpace : Nat → List Char → List (List Char)
  | 0, s => [s]
  | n + 1, s =>
    match s.dropWhile (· != ' ') with
    | [] => [s]
    | _ :: rest => s.takeWhile (· != ' ') :: splitSpace n rest

/-- The words of an option string: its code, its type and the text of its value. -/
def optionWords (s : String) : List String :=
  (splitSpace 2 (trimSpace s.toList)).map String.ofList

/-- The second half of `parseDHCPOption`, on the words of the string. -/
def readOption (lib : OptionLib) (code typ valStr : String) :
    Except OptionErr (UInt8 × OptionValue) :=
  match parseUint code 8 with
  | none => .error (.code code)
  | some code =>
    match parseDHCPOptionVal lib typ valStr with
    | .error err => .error err
    | .ok val => .ok (UInt8.ofNat code, val)

/-- `parseDHCPOption` parses an option. For the `del` option the value is ignored. -/
def parseDHCPOption (lib : OptionLib) (s : String) : Except OptionErr (UInt8 × OptionValue) :=
  match optionWords s with
  | [code, typ] => if typ = "del" then readOption lib code typ "" else .error .badFormat
  | code :: typ :: valStr :: _ => readOption lib code typ valStr
  | _ => .error .badFormat

/-! ### The layers -/

/-- The option codes of the `dhcpv4` package that the server names. -/
def optionSubnetMask : UInt8 := 1
def optionRouter : UInt8 := 3
def optionDomainNameServer : UInt8 := 6
def optionIPAddressLeaseTime : UInt8 := 51

def minute : Duration := 60 * second

/-- The values of Appendix A of RFC 2131 in `prepareOptions`, by the codes of IP
forwarding, non-local source routing, the maximum datagram size, the IP time to live,
the aging timeout and the plateau table of the path MTU, all subnets local, mask
discovery, mask supplier, router discovery, router solicitation, broadcast, trailer
encapsulation, the ARP cache timeout, Ethernet encapsulation, and the time to live, the
keepalive interval and the keepalive garbage of TCP. -/
def hostRequirements : List (UInt8 × OptionValue) :=
  [(19, .generic (some [0])), (20, .generic (some [0])), (22, .uint16 576),
   (23, .generic (some [0x40])), (24, .duration (10 * minute)),
   (25, .generic (some [0x0, 0x44, 0x1, 0x28, 0x1, 0xFC, 0x3, 0xEE, 0x5, 0xD4, 0x7, 0xD2,
     0x11, 0x0, 0x1F, 0xE6, 0x45, 0xFA])),
   (27, .generic (some [0])), (29, .generic (some [0])), (30, .generic (some [0])),
   (31, .generic (some [1])), (32, .ip 0xE0000002), (28, .ip 0xFFFFFFFF),
   (34, .generic (some [0])), (35, .duration minute), (36, .generic (some [0])),
   (37, .duration (60 * second)), (38, .duration (120 * minute)), (39, .generic (some [1]))]

/-- The options part of a `v4Server`. A nil `explicitOpts` is an empty one. -/
structure OptionSets where
  implicitOpts : Options
  explicitOpts : Options

/-- The implicit options of `prepareOptions`, with the values of the configuration; the
two addresses are IPv4 addresses in a validated one. -/
def implicitDefaults (gatewayIP subnetMask : BitVec 32) : Options :=
  .fromList (hostRequirements ++
    [(optionRouter, .ips [gatewayIP]), (optionSubnetMask, .ip subnetMask)])

/-- One round of the loop of `prepareOptions`; a bad option string is skipped. -/
def OptionSets.configure (lib : OptionLib) (o : OptionSets) (s : String) : OptionSets :=
  match parseDHCPOption lib s with
  | .error _ => o
  | .ok (code, val) => ⟨o.implicitOpts.delete code, o.explicitOpts.update code val⟩

/-- `prepareOptions`. -/
def prepareOptions (lib : OptionLib) (gatewayIP subnetMask : BitVec 32)
    (options : List String) : OptionSets :=
  options.foldl (OptionSets.configure lib) ⟨implicitDefaults gatewayIP subnetMask, .empty⟩

/-- `configureDNSIPAddrs`: the Domain Name Server option is known only at the start. -/
def OptionSets.configureDNSIPAddrs (o : OptionSets) (dnsIPAddrs : List (BitVec 32)) : OptionSets :=
  if o.explicitOpts.has optionDomainNameServer then o
  else { o with implicitOpts := o.implicitOpts.update optionDomainNameServer (.ips dnsIPAddrs) }

/-- One round of the loop of `updateOptions` over the parameter list. -/
def OptionSets.addImplicit (o : OptionSets) (resp : Options) (code : UInt8) : Options :=
  match o.implicitOpts.get code with
  | some val => Function.update resp code (some (some val))
  | none => resp

/-- The loop of `updateOptions` over the parameter list of the request. -/
def OptionSets.addRequested (o : OptionSets) (resp : Options) (requested : List UInt8) : Options :=
  requested.foldl o.addImplicit resp

/-- `updateOptions`. The loop over the explicit options goes through the map in no
particular order; every round writes or deletes its own code only. -/
def OptionSets.updateOptions (o : OptionSets) (leaseTime : Duration) (requested : List UInt8)
    (resp : Options) : Options := fun code =>
  match o.explicitOpts code with
  | some (some val) => some (some val)
  | some none => none
  | none => o.addRequested (resp.update optionIPAddressLeaseTime (.duration leaseTime)) requested code

/-! ### Precedence -/

variable {lib : OptionLib} {o : OptionSets} {code : UInt8} {s : String} {val : OptionValue}

/-- The type word of an option string is `del`. -/
def isDel (s : String) : Bool := (optionWords s)[1]? == some "del"

/-- The string parses as an option of this code. -/
def sets (lib : OptionLib) (code : UInt8) (s : String) : Bool :=
  (parseDHCPOption lib s).toOption.any (·.1 == code)

/-- The last of the strings that parse as an option of this code. -/
def lastFor (lib : OptionLib) (code : UInt8) (options : List String) : Option String :=
  (options.filter (sets lib code)).getLast?

theorem parseIPsFrom_ne_nil {i : Nat} {texts : List String} {ips : List (BitVec 32)}
    (nonempty : texts ≠ []) (done : parseIPsFrom lib i texts = .ok ips) : ips ≠ [] := by
  cases texts with
  | nil => exact absurd rfl nonempty
  | cons s rest =>
    simp only [parseIPsFrom] at done
    split at done
    · cases done
    split at done
    · cases done
    · cases done
      exact List.cons_ne_nil _ _

theorem toBytes_ips {ips : List (BitVec 32)} (nonempty : ips ≠ []) :
    (OptionValue.ips ips).toBytes ≠ none := by
  cases ips with
  | nil => exact absurd rfl nonempty
  | cons a rest => simp [OptionValue.toBytes]

/-- Only the `del` type has the nil slice for a value. -/
theorem parseDHCPOptionVal_nil_iff {typ valStr : String}
    (done : parseDHCPOptionVal lib typ valStr = .ok val) : val.toBytes = none ↔ typ = "del" := by
  unfold parseDHCPOptionVal at done
  split at done
  case h_1 =>
    unfold parseDHCPOptionBool at done
    split at done
    · cases done
    · cases done
      simp [OptionValue.toBytes]
  case h_2 =>
    cases done
    simp [OptionValue.toBytes]
  case h_3 =>
    unfold parseDHCPOptionDur at done
    split at done
    · cases done
      simp [OptionValue.toBytes]
    · cases done
  case h_4 =>
    unfold parseDHCPOptionHex at done
    split at done
    · cases done
      simp [OptionValue.toBytes]
    · cases done
  case h_5 =>
    unfold parseDHCPOptionIP at done
    split at done
    · cases done
      simp [OptionValue.toBytes]
    · cases done
  case h_6 =>
    unfold parseDHCPOptionIPs at done
    split at done
    · cases done
    · rename_i ips parsed
      cases done
      have nonempty : ips ≠ [] := parseIPsFrom_ne_nil (by simp [List.splitOn_ne_nil]) parsed
      simp [toBytes_ips nonempty]
  case h_7 =>
    cases done
    simp [OptionValue.toBytes]
  case h_8 =>
    unfold parseDHCPOptionUint at done
    split at done
    · cases done
    · cases done
      simp [OptionValue.toBytes]
  case h_9 =>
    unfold parseDHCPOptionUint at done
    split at done
    · cases done
    · cases done
      simp [OptionValue.toBytes]
  case h_10 => cases done

theorem readOption_nil_iff {word typ valStr : String}
    (done : readOption lib word typ valStr = .ok (code, val)) :
    val.toBytes = none ↔ typ = "del" := by
  unfold readOption at done
  split at done
  · cases done
  split at done
  · cases done
  · rename_i parsed
    cases done
    exact parseDHCPOptionVal_nil_iff parsed

theorem parseDHCPOption_nil_iff (done : parseDHCPOption lib s = .ok (code, val)) :
    val.toBytes = none ↔ isDel s = true := by
  unfold parseDHCPOption at done
  unfold isDel
  split at done
  · rename_i word typ words
    split at done
    · rw [words, readOption_nil_iff done]
      simp
    · cases done
  · rename_i word typ valStr rest words
    rw [words, readOption_nil_iff done]
    simp
  · cases done

theorem lastFor_append (lib : OptionLib) (code : UInt8) (options : List String) (s : String) :
    lastFor lib code (options ++ [s]) =
      if sets lib code s then some s else lastFor lib code options := by
  unfold lastFor
  rw [List.filter_append]
  split
  · rename_i hit
    rw [List.filter_cons_of_pos hit, List.filter_nil, List.getLast?_concat]
  · rename_i miss
    rw [List.filter_cons_of_neg miss, List.filter_nil, List.append_nil]

theorem parse_of_lastFor {options : List String} (last : lastFor lib code options = some s) :
    ∃ val, parseDHCPOption lib s = .ok (code, val) := by
  have hit := (List.mem_filter.mp (List.mem_of_getLast? last)).2
  unfold sets at hit
  cases parsed : parseDHCPOption lib s with
  | error err =>
    rw [parsed] at hit
    cases hit
  | ok option =>
    rw [parsed] at hit
    have same : option.1 = code := by simpa [Except.toOption] using hit
    exact ⟨option.2, by rw [← same]⟩

/-- What `prepareOptions` makes of a code: the last parseable string for it decides. The
induction is on the strings from the right, as the loop has taken them. -/
theorem prepareOptions_spec (lib : OptionLib) (gatewayIP subnetMask : BitVec 32)
    (options : List String) (code : UInt8) :
    match lastFor lib code options with
    | none => (prepareOptions lib gatewayIP subnetMask options).explicitOpts code = none ∧
        (prepareOptions lib gatewayIP subnetMask options).implicitOpts code =
          implicitDefaults gatewayIP subnetMask code
    | some s => (prepareOptions lib gatewayIP subnetMask options).implicitOpts code = none ∧
        ∀ val, parseDHCPOption lib s = .ok (code, val) →
          (prepareOptions lib gatewayIP subnetMask options).explicitOpts code =
            some val.toBytes := by
  induction options using List.reverseRecOn with
  | nil => exact ⟨rfl, rfl⟩
  | append_singleton options s ih =>
    have round : prepareOptions lib gatewayIP subnetMask (options ++ [s]) =
        (prepareOptions lib gatewayIP subnetMask options).configure lib s := by
      simp [prepareOptions]
    rw [round, lastFor_append]
    unfold OptionSets.configure sets
    cases parsed : parseDHCPOption lib s with
    | error err => exact ih
    | ok option =>
      obtain ⟨code', val⟩ := option
      by_cases same : code' = code
      · subst same
        have hit : (Except.ok (code', val) : Except OptionErr _).toOption.any (·.1 == code') =
            true := by simp [Except.toOption]
        rw [if_pos hit]
        refine ⟨by simp [Options.delete], fun val' parsed' => ?_⟩
        rw [parsed] at parsed'
        cases parsed'
        simp [Options.update]
      · have miss : ¬(Except.ok (code', val) : Except OptionErr _).toOption.any (·.1 == code) =
            true := by simp [Except.toOption, same]
        have explicit : ∀ o : Options, o.update code' val code = o code := fun o =>
          Function.update_of_ne (Ne.symm same) ..
        have implicit : ∀ o : Options, o.delete code' code = o code := fun o =>
          Function.update_of_ne (Ne.symm same) ..
        rw [if_neg miss]
        simpa only [explicit, implicit] using ih

/-- The implicit table with the addresses of the DNS servers. -/
def implicitTable (gatewayIP subnetMask : BitVec 32) (dnsIPAddrs : List (BitVec 32)) : Options :=
  (implicitDefaults gatewayIP subnetMask).update optionDomainNameServer (.ips dnsIPAddrs)

theorem addImplicit_apply (o : OptionSets) (resp : Options) (c code : UInt8) :
    o.addImplicit resp c code =
      if code = c ∧ o.implicitOpts.get code ≠ none then some (o.implicitOpts.get code)
      else resp code := by
  unfold OptionSets.addImplicit
  by_cases same : code = c
  · subst same
    cases value : o.implicitOpts.get code with
    | none => simp
    | some val => simp
  · cases o.implicitOpts.get c with
    | none => simp [same]
    | some val => simp [same]

/-- The parameter list of the request brings in the implicit values it asks for. -/
theorem addRequested_apply (o : OptionSets) (resp : Options) (requested : List UInt8)
    (code : UInt8) :
    o.addRequested resp requested code =
      if code ∈ requested ∧ o.implicitOpts.get code ≠ none then some (o.implicitOpts.get code)
      else resp code := by
  unfold OptionSets.addRequested
  induction requested generalizing resp with
  | nil => simp
  | cons c rest ih =>
    rw [List.foldl_cons, ih, addImplicit_apply]
    by_cases value : o.implicitOpts.get code = none
    · simp [value]
    · by_cases same : code = c
      · subst same
        simp [value]
      · simp [same]

theorem configureDNSIPAddrs_explicit (o : OptionSets) (dnsIPAddrs : List (BitVec 32)) :
    (o.configureDNSIPAddrs dnsIPAddrs).explicitOpts = o.explicitOpts := by
  unfold OptionSets.configureDNSIPAddrs
  split
  · rfl
  · rfl

/-- The Domain Name Server option goes to the implicit options, unless it is explicit. -/
theorem configureDNSIPAddrs_implicit (o : OptionSets) (dnsIPAddrs : List (BitVec 32))
    (code : UInt8) :
    (o.configureDNSIPAddrs dnsIPAddrs).implicitOpts code =
      if code = optionDomainNameServer ∧ o.explicitOpts code = none then
        some (OptionValue.ips dnsIPAddrs).toBytes
      else o.implicitOpts code := by
  unfold OptionSets.configureDNSIPAddrs Options.has
  split
  · rename_i isExplicit
    rw [if_neg]
    rintro ⟨rfl, absent⟩
    simp [absent] at isExplicit
  · rename_i absent
    by_cases isDNS : code = optionDomainNameServer
    · subst isDNS
      have none : o.explicitOpts optionDomainNameServer = none := by simpa using absent
      simp [Options.update, none]
    · simp [Options.update, isDNS]

/-- The options of a reply, for every list of configured strings and every request. The
implicit and the explicit options have no code in common. For each code the last
parseable string decides: its value is in the reply, or the option is absent if it is a
deletion; without one the reply has the implicit value exactly if the request asks for
it. `resp` is what the handler has set before, which the last case leaves aside with the
lease time that `updateOptions` sets itself. -/
theorem options_precedence (lib : OptionLib) (gatewayIP subnetMask : BitVec 32)
    (options : List String) (dnsIPAddrs : List (BitVec 32)) (leaseTime : Duration)
    (requested : List UInt8) (resp : Options) (code : UInt8) :
    let o := (prepareOptions lib gatewayIP subnetMask options).configureDNSIPAddrs dnsIPAddrs
    ¬(o.implicitOpts.has code = true ∧ o.explicitOpts.has code = true) ∧
      match lastFor lib code options with
      | some s => ∃ val, parseDHCPOption lib s = .ok (code, val) ∧
          if isDel s then o.updateOptions leaseTime requested resp code = none
          else ∃ bytes, val.toBytes = some bytes ∧
            o.updateOptions leaseTime requested resp code = some (some bytes)
      | none => resp code = none → code ≠ optionIPAddressLeaseTime →
          ∀ value, o.updateOptions leaseTime requested resp code = some value ↔
            code ∈ requested ∧ value ≠ none ∧
              (implicitTable gatewayIP subnetMask dnsIPAddrs).get code = value := by
  intro o
  have prepared := prepareOptions_spec lib gatewayIP subnetMask options code
  cases last : lastFor lib code options with
  | none =>
    rw [last] at prepared
    obtain ⟨noExplicit, implicit⟩ := prepared
    have explicit : o.explicitOpts code = none := by
      rw [configureDNSIPAddrs_explicit, noExplicit]
    have table : o.implicitOpts code =
        implicitTable gatewayIP subnetMask dnsIPAddrs code := by
      rw [configureDNSIPAddrs_implicit, noExplicit, implicit, implicitTable, Options.update,
        Function.update_apply]
      simp
    refine ⟨by simp [Options.has, explicit], fun unset other value => ?_⟩
    have before : resp.update optionIPAddressLeaseTime (.duration leaseTime) code = none := by
      rw [Options.update, Function.update_of_ne other, unset]
    have asked : o.implicitOpts.get code =
        (implicitTable gatewayIP subnetMask dnsIPAddrs).get code := by
      rw [Options.get, Options.get, table]
    simp only [OptionSets.updateOptions, explicit]
    rw [addRequested_apply, before, asked]
    constructor
    · intro found
      split at found
      · rename_i present
        cases found
        exact ⟨present.1, present.2, rfl⟩
      · cases found
    · rintro ⟨listed, nonnil, rfl⟩
      rw [if_pos ⟨listed, nonnil⟩]
  | some s =>
    rw [last] at prepared
    obtain ⟨noImplicit, explicit⟩ := prepared
    obtain ⟨val, parsed⟩ := parse_of_lastFor last
    have explicit : o.explicitOpts code = some val.toBytes := by
      rw [configureDNSIPAddrs_explicit, explicit val parsed]
    have implicit : o.implicitOpts code = none := by
      rw [configureDNSIPAddrs_implicit, if_neg, noImplicit]
      rintro ⟨-, absent⟩
      rw [← configureDNSIPAddrs_explicit _ dnsIPAddrs, explicit] at absent
      cases absent
    refine ⟨by simp [Options.has, implicit], val, parsed, ?_⟩
    have deletes := parseDHCPOption_nil_iff parsed
    split
    · rename_i isDel
      simp only [OptionSets.updateOptions, explicit, deletes.mpr isDel]
    · rename_i isValue
      obtain ⟨bytes, value⟩ := Option.ne_none_iff_exists'.mp (mt deletes.mp isValue)
      exact ⟨bytes, value, by simp only [OptionSets.updateOptions, explicit, value]⟩

end FirewallCore.Dhcpd
