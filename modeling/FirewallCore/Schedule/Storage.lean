import FirewallCore.Lib.Float64
import FirewallCore.Schedule.Weekly
import Mathlib.Data.List.FinRange
import Mathlib.Logic.Function.Basic

/-!
How weekly schedules are stored (`MarshalYAML`, `MarshalJSON` and back in
`schedule/schedule.go`, with `JSONDuration` of `aghhttp/json.go`).

Documents are trees, and how a tree is written is left to `yaml.v3` and
`encoding/json`. A YAML tree has no aliases and merges, and its keys are strings.
YAML has durations as texts. JSON has them as numbers of milliseconds, which pass
through floating-point numbers both ways.
-/

namespace FirewallCore.Schedule

open FirewallCore.Lib

/-- What the packages give that are used. -/
structure Packages where
  /-- `time.LoadLocation`. -/
  loadLocation : String → Except String Location
  /-- `timeutil.Duration.MarshalText`. -/
  durationText : Int → String
  /-- `timeutil.Duration.UnmarshalText`. -/
  parseDuration : String → Except String Int
  /-- `int64` of a floating-point number that does not fit. -/
  outOfRange : ℚ → Int

/-- The names of loaded locations are the names that they are loaded by, and durations are read
back. -/
structure Packages.Lawful (p : Packages) : Prop where
  loadLocation_utc : p.loadLocation "UTC" = .ok .utc
  loadLocation_empty : p.loadLocation "" = .ok .utc
  name_eq : ∀ name loc, p.loadLocation name = .ok loc → loc.name = if name = "" then "UTC" else name
  parseDuration_text : ∀ d, |d| < 2 ^ 63 → p.parseDuration (p.durationText d) = .ok d

/-- The errors of `UnmarshalYAML` and `UnmarshalJSON`. -/
inductive Error where
  /-- The document is not decoded. -/
  | decode
  | location (err : String)
  | weekday (i : Fin 7) (err : RangeErr)

def weekdayName (i : Fin 7) : String :=
  ["Sunday", "Monday", "Tuesday", "Wednesday", "Thursday", "Friday", "Saturday"].getD i.val ""

/-- The text of an error, with that of the decoder. -/
def Error.text (string : Int → String) (decoder : String) : Error → String
  | decode => decoder
  | location err => err
  | weekday i err => "weekday " ++ weekdayName i ++ ": " ++ err.text string

/-- The keys of the days. -/
def dayKey (i : Fin 7) : String := ["sun", "mon", "tue", "wed", "thu", "fri", "sat"].getD i.val ""

/-- The zone of a schedule; no location means UTC. -/
def Weekly.zone (w : Weekly) : Location := w.location.getD .utc

/-- The zero value of `Weekly`. -/
def Weekly.zero : Weekly := ⟨none, fun _ => ⟨0, 0⟩⟩

section

variable (p : Packages)

/-- The end of `UnmarshalYAML` and `UnmarshalJSON`. -/
def newWeekly (timeZone : String) (days : Fin 7 → DayRange) : Except Error Weekly :=
  match p.loadLocation timeZone with
  | .error err => .error (.location err)
  | .ok loc =>
    match (List.finRange 7).findSome? fun i => (validate (days i)).map (Error.weekday i) with
    | some err => .error err
    | none => .ok ⟨some loc, days⟩

/-! ### YAML -/

inductive YAML where
  | null
  | scalar (text : String)
  | seq (items : List YAML)
  | map (fields : List (String × YAML))

/-- `weeklyConfigYAML`. -/
structure ConfigYAML where
  timeZone : String
  days : Fin 7 → DayRange

/-- A day, which is left out if it is zero. -/
def encodeDayYAML (c : ConfigYAML) (i : Fin 7) : Option (String × YAML) :=
  if c.days i = ⟨0, 0⟩ then none
  else
    some (dayKey i, .map [("start", .scalar (p.durationText (c.days i).start)),
      ("end", .scalar (p.durationText (c.days i).stop))])

/-- `yaml.Marshal` of a configuration. -/
def encodeYAML (c : ConfigYAML) : YAML :=
  .map (("time_zone", .scalar c.timeZone) :: (List.finRange 7).filterMap (encodeDayYAML p c))

/-- `MarshalYAML`. -/
def marshalYAML (w : Weekly) : YAML := encodeYAML p ⟨w.zone.name, w.days⟩

/-- A field that may be missing or null. -/
def decodeField {α : Type} (zero : α) (decode : YAML → Option α) : Option YAML → Option α
  | none | some .null => some zero
  | some y => decode y

def decodeText : YAML → Option String
  | .scalar text => some text
  | _ => none

def decodeDurationYAML : YAML → Option Int
  | .scalar text => (p.parseDuration text).toOption
  | _ => none

/-- `dayConfigYAML`. No key may come twice. -/
def decodeDayYAML : YAML → Option DayRange
  | .map fields =>
    if (fields.map (·.1)).Nodup then do
      let start ← decodeField 0 (decodeDurationYAML p) (fields.lookup "start")
      let stop ← decodeField 0 (decodeDurationYAML p) (fields.lookup "end")
      return ⟨start, stop⟩
    else none
  | _ => none

/-- All values, or none. -/
def sequence {α : Type} (f : Fin 7 → Option α) : Option (Fin 7 → α) :=
  if all : ∀ i, (f i).isSome then some fun i => (f i).get (all i) else none

/-- `Decode` to a configuration. -/
def decodeYAML : YAML → Option ConfigYAML
  | .map fields =>
    if (fields.map (·.1)).Nodup then do
      let timeZone ← decodeField "" decodeText (fields.lookup "time_zone")
      let days ← sequence fun i => decodeField ⟨0, 0⟩ (decodeDayYAML p) (fields.lookup (dayKey i))
      return ⟨timeZone, days⟩
    else none
  | _ => none

/-- `yaml.Unmarshal` to a zero value. For null it does not call `UnmarshalYAML`. -/
def unmarshalYAML : YAML → Except Error Weekly
  | .null => .ok .zero
  | y =>
    match decodeYAML p y with
    | none => .error .decode
    | some conf => newWeekly p conf.timeZone conf.days

/-! ### JSON -/

/-- JSON with the values of its numbers. -/
inductive JSON where
  | null
  | bool (b : Bool)
  | num (value : ℚ)
  | str (s : String)
  | arr (items : List JSON)
  | obj (members : List (String × JSON))

/-- `weeklyConfigJSON`. -/
structure ConfigJSON where
  timeZone : String
  days : Fin 7 → Option DayRange

/-- `nsecPerMsec`. -/
def nsecPerMsec : ℚ := 1000000

/-- `JSONDuration.MarshalJSON`. -/
def encodeDuration (d : Int) : JSON :=
  .num (Float64.shortest (Float64.nearest (Float64.nearest d / nsecPerMsec)))

/-- `int64` of a floating-point number. -/
def toInt64 (x : ℚ) : Int :=
  let n := Float64.trunc x
  if -2 ^ 63 ≤ n ∧ n < 2 ^ 63 then n else p.outOfRange x

/-- `JSONDuration.UnmarshalJSON`. `ParseFloat` reads numbers only, up to infinity. -/
def decodeDuration : JSON → Option Int
  | .num value =>
    let msec := Float64.nearest value
    if |msec| < 2 ^ 1024 then some (toInt64 p (Float64.nearest (msec * nsecPerMsec))) else none
  | _ => none

/-- `toDayConfigJSON`. -/
def toDayConfigJSON (r : DayRange) : Option DayRange := if r = ⟨0, 0⟩ then none else some r

def encodeDayJSON (c : ConfigJSON) (i : Fin 7) : Option (String × JSON) :=
  (c.days i).map fun r =>
    (dayKey i, .obj [("start", encodeDuration r.start), ("end", encodeDuration r.stop)])

/-- `json.Marshal` of a configuration. -/
def encodeJSON (c : ConfigJSON) : JSON :=
  .obj ((List.finRange 7).filterMap (encodeDayJSON c) ++ [("time_zone", .str c.timeZone)])

/-- `MarshalJSON`. -/
def marshalJSON (w : Weekly) : JSON := encodeJSON ⟨w.zone.name, fun i => toDayConfigJSON (w.days i)⟩

/-- A character without its case, among those that fold to letters of the keys. -/
def foldRune (c : Char) : Char := if c = 'ſ' then 'S' else c.toUpper

/-- A member is for a field if the names differ in case only. -/
def isFor (name key : String) : Bool := key.toList.map foldRune == name.toList.map foldRune

def decodeDayMember (r : DayRange) (member : String × JSON) : Option DayRange :=
  if isFor "start" member.1 then
    (decodeDuration p member.2).map fun start => { r with start := start }
  else if isFor "end" member.1 then
    (decodeDuration p member.2).map fun stop => { r with stop := stop }
  else some r

/-- `dayConfigJSON`, by a pointer: an object goes into the one that is there. -/
def decodeDayJSON (old : Option DayRange) : JSON → Option (Option DayRange)
  | .null => some none
  | .obj members => (members.foldlM (decodeDayMember p) (old.getD ⟨0, 0⟩)).map some
  | _ => none

def decodeMember (c : ConfigJSON) (member : String × JSON) : Option ConfigJSON :=
  if isFor "time_zone" member.1 then
    match member.2 with
    | .null => some c
    | .str s => some { c with timeZone := s }
    | _ => none
  else
    match (List.finRange 7).find? fun i => isFor (dayKey i) member.1 with
    | none => some c
    | some i =>
      (decodeDayJSON p (c.days i) member.2).map fun r => { c with days := Function.update c.days i r }

/-- `json.Unmarshal` to a configuration. -/
def decodeJSON : JSON → Option ConfigJSON
  | .null => some ⟨"", fun _ => none⟩
  | .obj members => members.foldlM (decodeMember p) ⟨"", fun _ => none⟩
  | _ => none

/-- `UnmarshalJSON`. -/
def unmarshalJSON (j : JSON) : Except Error Weekly :=
  match decodeJSON p j with
  | none => .error .decode
  | some conf => newWeekly p conf.timeZone fun i => (conf.days i).getD ⟨0, 0⟩

end

end FirewallCore.Schedule
