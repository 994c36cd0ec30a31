import FirewallCore.Lib.Base64
import FirewallCore.Lib.Json
import FirewallCore.Lib.Rfc3339
import FirewallCore.Lib.Strings
import FirewallCore.Net.IPText

/-!
Values that are taken out of a line of the log without decoding it
(`readJSONValue`, `readQLogTimestamp`).
-/

namespace FirewallCore.Querylog

open FirewallCore.Lib

/-- `readJSONValue`: what stands behind the prefix, up to the next quote. -/
def readJSONValue (s pre : List UInt8) : List UInt8 :=
  match indexOf pre s with
  | none => []
  | some i =>
    let tail := s.drop (i + pre.length)
    match indexOf [34] tail with
    | none => []
    | some j => tail.take j

/-- The time that `readQLogTimestamp` finds in a line, in nanoseconds after 1970. `timeParse`
is `time.Parse` for RFC 3339 with the `UnixNano` of its result. -/
def readQLogTime (timeParse : List UInt8 → Option Int) (str : List UInt8) : Option Int :=
  let val := readJSONValue str (utf8 "\"T\":\"")
  let val := if val.length = 0 then readJSONValue str (utf8 "\"Time\":\"") else val
  if val.length = 0 then none else timeParse val

/-- `readQLogTimestamp`. A line without a time has the timestamp zero. -/
def readQLogTimestamp (timeParse : List UInt8 → Option Int) (str : List UInt8) : Int :=
  (readQLogTime timeParse str).getD 0

end FirewallCore.Querylog

/-!
The entries of the query log and their lines in a file (`entry.go`, and what
`json.Encoder` writes for the structures there and in `filtering`).

Strings are sequences of bytes. The value of a resource record in a rewrite is
given by its JSON; the records of a rewrite stand in the order in which the
encoder writes them. A time is in UTC. The `client` of an entry is not written.
-/

namespace FirewallCore.Querylog.File

open FirewallCore.Lib FirewallCore.Net

/-- A string in Go. -/
abbrev GoString := List UInt8

/-- `time.Time` in UTC: seconds from the beginning of the year zero, and nanoseconds. -/
structure Time where
  secs : Int
  nanos : Nat
  small : nanos < 10 ^ 9
  deriving DecidableEq, Repr

/-- The zero time, the beginning of the year one. -/
def Time.zero : Time := ⟨31622400, 0, by decide⟩

/-- `ClientProto`. -/
inductive ClientProto where
  | doh
  | doq
  | dot
  | dnscrypt
  | plain
  deriving DecidableEq, Repr

def ClientProto.name : ClientProto → String
  | doh => "doh"
  | doq => "doq"
  | dot => "dot"
  | dnscrypt => "dnscrypt"
  | plain => ""

/-- `filtering.DNSRewriteResult`. -/
structure DNSRewriteResult where
  response : List (Nat × List Json)
  rCode : Int64

/-- `filtering.ResultRule`. -/
structure ResultRule where
  text : GoString
  ip : Addr
  filterListID : Int64
  deriving DecidableEq, Repr

/-- `filtering.Result`. The reason is its number. -/
structure Result where
  dnsRewriteResult : Option DNSRewriteResult
  canonName : GoString
  serviceName : GoString
  ipList : List Addr
  rules : List ResultRule
  reason : Int64
  isFiltered : Bool

/-- `logEntry`. -/
structure LogEntry where
  time : Time
  qHost : GoString
  qType : GoString
  qClass : GoString
  reqECS : GoString
  clientID : GoString
  clientProto : ClientProto
  upstream : GoString
  answer : List UInt8
  origAnswer : List UInt8
  ip : IP
  result : Result
  /-- In nanoseconds. -/
  elapsed : Int64
  cached : Bool
  authenticatedData : Bool

/-- `filtering.Result{}`. -/
def Result.empty : Result := ⟨none, [], [], [], [], 0, false⟩

/-- `logEntry{}`. -/
def LogEntry.empty : LogEntry :=
  ⟨.zero, [], [], [], [], [], .plain, [], [], [], .nil, .empty, 0, false, false⟩

/-! ### Encoding -/

/-- The members of an object. -/
abbrev Members := List (GoString × Json)

/-- A field of a structure. -/
def field (name : String) (value : Json) : Members := [(utf8 name, value)]

/-- A field with `omitempty`. -/
def omitEmpty (empty : Bool) (name : String) (value : Json) : Members :=
  if empty then [] else field name value

/-- A string with `omitempty`. -/
def omitString (name : String) (s : GoString) : Members := omitEmpty s.isEmpty name (.str s)

/-- A number with `omitempty`. -/
def omitNumber (name : String) (n : Int64) : Members := omitEmpty (n == 0) name (.num n.toInt)

/-- A flag with `omitempty`. -/
def omitBool (name : String) (b : Bool) : Members := omitEmpty (!b) name (.bool b)

/-- Bytes with `omitempty`, in base64. -/
def omitBytes (name : String) (bytes : List UInt8) : Members :=
  omitEmpty bytes.isEmpty name (.str (Base64.encode bytes))

/-- The `MarshalText` of a `netip.Addr`. -/
def addrJSON : Addr → Json
  | .zero => .str []
  | ip => .str (utf8 ip.string)

def DNSRewriteResult.toJSON (r : DNSRewriteResult) : Json :=
  .obj (omitEmpty r.response.isEmpty "Response"
      (.obj (r.response.map fun (rrType, values) => (Json.natText rrType, .arr values))) ++
    omitNumber "RCode" r.rCode)

/-- A pointer to a rewrite with `omitempty`. -/
def omitRewrite (name : String) : Option DNSRewriteResult → Members
  | none => []
  | some rewrite => field name rewrite.toJSON

/-- Only an IP address is written in any case: `omitempty` does not apply to structures. -/
def ResultRule.toJSON (r : ResultRule) : Json :=
  .obj (omitString "Text" r.text ++ field "IP" (addrJSON r.ip) ++
    omitNumber "FilterListID" r.filterListID)

def Result.toJSON (r : Result) : Json :=
  .obj (omitRewrite "DNSRewriteResult" r.dnsRewriteResult ++
    omitString "CanonName" r.canonName ++
    omitString "ServiceName" r.serviceName ++
    omitEmpty r.ipList.isEmpty "IPList" (.arr (r.ipList.map addrJSON)) ++
    omitEmpty r.rules.isEmpty "Rules" (.arr (r.rules.map ResultRule.toJSON)) ++
    omitNumber "Reason" r.reason ++
    omitBool "IsFiltered" r.isFiltered)

/-- The `MarshalJSON` of a time; a year outside of four digits is an error. -/
def Time.marshal (t : Time) : Option String :=
  let year := Rfc3339.localYear 0 t.secs
  if 0 ≤ year ∧ year ≤ 9999 then some (String.ofList (Rfc3339.formatNano 0 t.secs t.nanos))
  else none

/-- The fields of an entry around the texts of its time and of its address. -/
def LogEntry.members (e : LogEntry) (time ip : String) : Members :=
  field "T" (.str (utf8 time)) ++
  field "QH" (.str e.qHost) ++
  field "QT" (.str e.qType) ++
  field "QC" (.str e.qClass) ++
  omitString "ECS" e.reqECS ++
  omitString "CID" e.clientID ++
  field "CP" (.str (utf8 e.clientProto.name)) ++
  omitString "Upstream" e.upstream ++
  omitBytes "Answer" e.answer ++
  omitBytes "OrigAnswer" e.origAnswer ++
  field "IP" (.str (utf8 ip)) ++
  field "Result" e.result.toJSON ++
  field "Elapsed" (.num e.elapsed.toInt) ++
  omitBool "Cached" e.cached ++
  omitBool "AD" e.authenticatedData

def LogEntry.toJSON (e : LogEntry) : Option Json := do
  let time ← e.time.marshal
  let ip ← e.ip.marshalText
  return .obj (e.members time ip)

/-- The line that `Encode` writes for an entry, without its line break. -/
def LogEntry.encode (e : LogEntry) : Option GoString := e.toJSON.map Json.render

theorem exists_of_encode {e : LogEntry} {line : GoString} (done : e.encode = some line) :
    ∃ time ip, e.time.marshal = some time ∧ e.ip.marshalText = some ip ∧
      line = (Json.obj (e.members time ip)).render := by
  unfold LogEntry.encode LogEntry.toJSON at done
  cases time : e.time.marshal with
  | none => simp [time] at done
  | some t =>
    cases ip : e.ip.marshalText with
    | none => simp [time, ip] at done
    | some text =>
      simp only [time, ip, Option.bind_eq_bind, Option.bind_some, Option.pure_def,
        Option.map_some, Option.some.injEq] at done
      exact ⟨t, text, rfl, rfl, done.symm⟩

end FirewallCore.Querylog.File
