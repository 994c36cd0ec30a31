import FirewallCore.Schedule.Storage

/-!
Stored schedules are read back.

A valid range has whole minutes within a day. These are few enough for their
milliseconds, and for the way back, to be exact as floating-point numbers.
-/

namespace FirewallCore.Schedule

open FirewallCore.Lib

variable {p : Packages}

/-! ### Valid ranges -/

/-- Whole minutes, up to a day. -/
def WholeMinutes (d : Int) : Prop := ∃ k : Int, 0 ≤ k ∧ k ≤ 1440 ∧ d = k * minute

theorem wholeMinutes_of_truncate {d : Int} (bounds : 0 ≤ d ∧ d ≤ maxDayRange)
    (rounded : truncate d minute = d) :
    WholeMinutes d := by
  have exact : d.tmod minute = 0 := by
    unfold truncate at rounded
    omega
  obtain ⟨k, rfl⟩ := Int.dvd_of_tmod_eq_zero exact
  refine ⟨k, ?_, ?_, Int.mul_comm _ _⟩
  · simp only [minute, second] at bounds
    omega
  · simp only [maxDayRange, day, minute, second] at bounds
    omega

theorem bounds_of_validate {r : DayRange} (valid : r.validate = none) :
    (0 ≤ r.start ∧ r.start ≤ maxDayRange) ∧ 0 ≤ r.stop ∧ r.stop ≤ maxDayRange := by
  unfold DayRange.validate at valid
  split_ifs at valid with zero
  · rw [zero]
    decide
  · omega

theorem wholeMinutes_of_validate {r : DayRange} (valid : validate r = none) :
    WholeMinutes r.start ∧ WholeMinutes r.stop := by
  unfold validate at valid
  split at valid
  · cases valid
  · rename_i inner
    split at valid
    · cases valid
    · rename_i start
      split at valid
      · cases valid
      · rename_i stop
        have bounds := bounds_of_validate inner
        exact ⟨wholeMinutes_of_truncate bounds.1 (not_not.mp start),
          wholeMinutes_of_truncate bounds.2 (not_not.mp stop)⟩

/-! ### Durations -/

/-- A whole number of milliseconds is exact both ways. -/
theorem decodeDuration_encodeDuration {d : Int} (whole : WholeMinutes d) :
    decodeDuration p (encodeDuration d) = some d := by
  obtain ⟨k, low, high, rfl⟩ := whole
  have nanoseconds : |k * minute| < 2 ^ 53 := by
    rw [abs_lt]
    simp only [minute, second]
    omega
  have milliseconds : |k * 60000| < 2 ^ 52 := by
    rw [abs_lt]
    omega
  have toMsec : ((k * minute : Int) : ℚ) / nsecPerMsec = ((k * 60000 : Int) : ℚ) := by
    simp only [minute, second, nsecPerMsec]
    push_cast
    ring
  have fromMsec : ((k * 60000 : Int) : ℚ) * nsecPerMsec = ((k * minute : Int) : ℚ) := by
    simp only [minute, second, nsecPerMsec]
    push_cast
    ring
  have finite : |((k * 60000 : Int) : ℚ)| < 2 ^ 1024 := by
    calc |((k * 60000 : Int) : ℚ)| < 2 ^ 52 := by exact_mod_cast milliseconds
      _ ≤ 2 ^ 1024 := pow_le_pow_right₀ (by norm_num) (by norm_num)
  have small : |k * 60000| < 2 ^ 53 := milliseconds.trans (by norm_num)
  have fits : -2 ^ 63 ≤ k * minute ∧ k * minute < 2 ^ 63 := by
    rw [abs_lt] at nanoseconds
    omega
  unfold encodeDuration decodeDuration
  dsimp only
  rw [Float64.nearest_intCast nanoseconds, toMsec, Float64.nearest_intCast small,
    Float64.shortest_intCast milliseconds, Float64.nearest_intCast small, if_pos finite, fromMsec,
    Float64.nearest_intCast nanoseconds]
  unfold toInt64
  rw [Float64.trunc_intCast, if_pos fits]

theorem decodeDurationYAML_text (lawful : p.Lawful) {d : Int} (whole : WholeMinutes d) :
    decodeDurationYAML p (.scalar (p.durationText d)) = some d := by
  obtain ⟨k, low, high, rfl⟩ := whole
  have fits : |k * minute| < 2 ^ 63 := by
    rw [abs_lt]
    simp only [minute, second]
    omega
  unfold decodeDurationYAML
  dsimp only
  rw [lawful.parseDuration_text _ fits]
  rfl

/-! ### YAML -/

section YAML

theorem dayKey_inj {i j : Fin 7} (same : dayKey i = dayKey j) : i = j := by
  revert i j
  decide

theorem dayKey_ne_timeZone (i : Fin 7) : dayKey i ≠ "time_zone" := by
  revert i
  decide

section Days

variable {α : Type} {f : Fin 7 → Option (String × α)} (keyed : ∀ i e, f i = some e → e.1 = dayKey i)

include keyed

/-- The keys of the days that are written. -/
theorem keys_sublist (is : List (Fin 7)) :
    ((is.filterMap f).map (·.1)).Sublist (is.map dayKey) := by
  induction is with
  | nil => exact List.Sublist.slnil
  | cons i is ih =>
    cases written : f i with
    | none =>
      rw [List.filterMap_cons_none written]
      exact ih.cons _
    | some e =>
      rw [List.filterMap_cons_some written, List.map_cons, List.map_cons, keyed i e written]
      exact ih.cons_cons _

/-- Each day is found under its key. -/
theorem lookup_dayKey (is : List (Fin 7)) (i : Fin 7) :
    (is.filterMap f).lookup (dayKey i) = if i ∈ is then (f i).map (·.2) else none := by
  induction is with
  | nil => rfl
  | cons j is ih =>
    cases written : f j with
    | none =>
      rw [List.filterMap_cons_none written, ih]
      by_cases same : i = j
      · subst same
        simp [written]
      · simp [same]
    | some e =>
      rw [List.filterMap_cons_some written, List.lookup_cons, keyed j e written]
      by_cases same : i = j
      · subst same
        simp [written]
      · have apart : (dayKey i == dayKey j) = false := by
          simpa using fun equal => same (dayKey_inj equal)
        rw [apart]
        simp [same, ih]

end Days

theorem sequence_some {α : Type} (f : Fin 7 → α) : sequence (fun i => some (f i)) = some f := by
  have all : ∀ i : Fin 7, (some (f i)).isSome := fun _ => rfl
  exact dif_pos all

theorem decodeDayYAML_encodeDayYAML (lawful : p.Lawful) {c : ConfigYAML} {i : Fin 7}
    (valid : validate (c.days i) = none) :
    decodeField ⟨0, 0⟩ (decodeDayYAML p) ((encodeDayYAML p c i).map (·.2)) = some (c.days i) := by
  obtain ⟨start, stop⟩ := wholeMinutes_of_validate valid
  unfold encodeDayYAML
  split
  · rename_i zero
    rw [zero]
    rfl
  · have startText := decodeDurationYAML_text lawful start
    have stopText := decodeDurationYAML_text lawful stop
    simp [decodeField, decodeDayYAML, List.lookup_cons, startText, stopText]

/-- A written configuration is read back. -/
theorem decodeYAML_encodeYAML (lawful : p.Lawful) {c : ConfigYAML}
    (valid : ∀ i, validate (c.days i) = none) :
    decodeYAML p (encodeYAML p c) = some c := by
  have keyed (i : Fin 7) (e : String × YAML) (written : encodeDayYAML p c i = some e) :
      e.1 = dayKey i := by
    unfold encodeDayYAML at written
    split at written
    · cases written
    · cases written
      rfl
  have keys :
      ("time_zone" :: ((List.finRange 7).filterMap (encodeDayYAML p c)).map (·.1)).Nodup := by
    have all : ("time_zone" :: (List.finRange 7).map dayKey).Nodup := by decide
    exact all.sublist ((keys_sublist keyed _).cons_cons _)
  have days (i : Fin 7) :
      decodeField ⟨0, 0⟩ (decodeDayYAML p)
        ((("time_zone", YAML.scalar c.timeZone) ::
          (List.finRange 7).filterMap (encodeDayYAML p c)).lookup (dayKey i)) =
      some (c.days i) := by
    have apart : (dayKey i == "time_zone") = false := by simpa using dayKey_ne_timeZone i
    rw [List.lookup_cons, apart]
    simp only
    rw [lookup_dayKey keyed, if_pos (List.mem_finRange i),
      decodeDayYAML_encodeDayYAML lawful (valid i)]
  unfold encodeYAML decodeYAML
  simp only [List.map_cons, if_pos keys, days, sequence_some]
  simp [decodeField, decodeText]

end YAML

/-! ### JSON -/

section JSON

theorem isFor_start : isFor "start" "start" = true := by decide +kernel
theorem isFor_start_end : isFor "start" "end" = false := by decide +kernel
theorem isFor_end : isFor "end" "end" = true := by decide +kernel
theorem isFor_timeZone : isFor "time_zone" "time_zone" = true := by decide +kernel

/-- No key of a day is the key of the zone, or of another day. -/
theorem isFor_dayKey : ∀ i, isFor "time_zone" (dayKey i) = false ∧
    (List.finRange 7).find? (fun j => isFor (dayKey j) (dayKey i)) = some i := by
  decide +kernel

theorem decodeMember_day {c : ConfigJSON} {i : Fin 7} {r : DayRange} (empty : c.days i = none)
    (whole : WholeMinutes r.start ∧ WholeMinutes r.stop) :
    decodeMember p c
        (dayKey i, .obj [("start", encodeDuration r.start), ("end", encodeDuration r.stop)]) =
      some { c with days := Function.update c.days i (some r) } := by
  unfold decodeMember
  simp only [isFor_dayKey i, Bool.false_eq_true, if_false, empty]
  simp [decodeDayJSON, decodeDayMember, isFor_start, isFor_start_end, isFor_end,
    decodeDuration_encodeDuration whole.1, decodeDuration_encodeDuration whole.2]

/-- The members of the days set the days. -/
theorem foldlM_days {c : ConfigJSON}
    (whole : ∀ i r, c.days i = some r → WholeMinutes r.start ∧ WholeMinutes r.stop)
    {is : List (Fin 7)} (distinct : is.Nodup) {c' : ConfigJSON}
    (empty : ∀ i ∈ is, c'.days i = none) :
    (is.filterMap (encodeDayJSON c)).foldlM (decodeMember p) c' =
      some { c' with days := fun i => if i ∈ is then c.days i else c'.days i } := by
  induction is generalizing c' with
  | nil => simp
  | cons j is ih =>
    obtain ⟨fresh, distinct⟩ := List.nodup_cons.mp distinct
    have emptyHere := empty j List.mem_cons_self
    cases written : c.days j with
    | none =>
      have skipped : encodeDayJSON c j = none := by rw [encodeDayJSON, written, Option.map_none]
      rw [List.filterMap_cons_none skipped,
        ih distinct fun i member => empty i (List.mem_cons_of_mem _ member)]
      congr 2
      funext i
      by_cases same : i = j
      · subst same
        simp [fresh, emptyHere, written]
      · simp [same]
    | some r =>
      have member : encodeDayJSON c j =
          some (dayKey j,
            .obj [("start", encodeDuration r.start), ("end", encodeDuration r.stop)]) := by
        rw [encodeDayJSON, written, Option.map_some]
      rw [List.filterMap_cons_some member, List.foldlM_cons,
        decodeMember_day emptyHere (whole j r written)]
      simp only [Option.bind_eq_bind, Option.bind_some]
      rw [ih distinct]
      · congr 2
        funext i
        by_cases same : i = j
        · subst same
          simp [fresh, written]
        · simp [same]
      · intro i inside
        have apart : i ≠ j := by
          rintro rfl
          exact fresh inside
        simp [apart, empty i (List.mem_cons_of_mem _ inside)]

/-- A written configuration is read back. -/
theorem decodeJSON_encodeJSON {c : ConfigJSON}
    (whole : ∀ i r, c.days i = some r → WholeMinutes r.start ∧ WholeMinutes r.stop) :
    decodeJSON p (encodeJSON c) = some c := by
  have days : ((List.finRange 7).filterMap (encodeDayJSON c)).foldlM (decodeMember p)
      ⟨"", fun _ => none⟩ =
        some ⟨"", fun i => if i ∈ List.finRange 7 then c.days i else none⟩ :=
    foldlM_days whole (List.nodup_finRange 7) fun _ _ => rfl
  unfold encodeJSON decodeJSON
  simp only [List.foldlM_append, days, List.mem_finRange, if_true]
  simp [decodeMember, isFor_timeZone]

end JSON

/-! ### Schedules -/

section Weekly

variable {w : Weekly} {loc : Location} {timeZone : String} {days : Fin 7 → DayRange}

/-- The name of a loaded location loads it. -/
theorem Packages.Lawful.reload (lawful : p.Lawful) {name : String}
    (loaded : p.loadLocation name = .ok loc) :
    p.loadLocation loc.name = .ok loc := by
  rw [lawful.name_eq name loc loaded]
  split
  · rename_i empty
    rw [empty, lawful.loadLocation_empty] at loaded
    cases loaded
    exact lawful.loadLocation_utc
  · exact loaded

theorem newWeekly_of_valid (loaded : p.loadLocation timeZone = .ok loc)
    (valid : ∀ i, validate (days i) = none) :
    newWeekly p timeZone days = .ok ⟨some loc, days⟩ := by
  have noError :
      (List.finRange 7).findSome? (fun i => (validate (days i)).map (Error.weekday i)) = none := by
    rw [List.findSome?_eq_none_iff]
    intro i _
    rw [valid i, Option.map_none]
  unfold newWeekly
  simp only [loaded, noError]

theorem newWeekly_ok (created : newWeekly p timeZone days = .ok w) :
    (∃ loc, p.loadLocation timeZone = .ok loc ∧ w = ⟨some loc, days⟩) ∧
      ∀ i, validate (days i) = none := by
  unfold newWeekly at created
  split at created
  · cases created
  · rename_i loc loaded
    split at created
    · cases created
    · rename_i noError
      cases created
      refine ⟨⟨loc, loaded, rfl⟩, fun i => ?_⟩
      have none := List.findSome?_eq_none_iff.mp noError i (List.mem_finRange i)
      simpa using none

/-- A schedule is stored and read back. -/
theorem unmarshal_marshal (lawful : p.Lawful) (loaded : p.loadLocation w.zone.name = .ok w.zone)
    (valid : ∀ i, validate (w.days i) = none) :
    unmarshalYAML p (marshalYAML p w) = .ok ⟨some w.zone, w.days⟩ ∧
      unmarshalJSON p (marshalJSON w) = .ok ⟨some w.zone, w.days⟩ := by
  constructor
  · have decoded : decodeYAML p (marshalYAML p w) = some ⟨w.zone.name, w.days⟩ :=
      decodeYAML_encodeYAML lawful valid
    have created := newWeekly_of_valid loaded valid
    unfold marshalYAML encodeYAML at decoded ⊢
    unfold unmarshalYAML
    simp only [decoded, created]
  · have whole (i : Fin 7) (r : DayRange) (written : toDayConfigJSON (w.days i) = some r) :
        WholeMinutes r.start ∧ WholeMinutes r.stop := by
      unfold toDayConfigJSON at written
      split at written
      · cases written
      · cases written
        exact wholeMinutes_of_validate (valid i)
    have decoded : decodeJSON p (marshalJSON w) =
        some ⟨w.zone.name, fun i => toDayConfigJSON (w.days i)⟩ :=
      decodeJSON_encodeJSON whole
    have days : (fun i => (toDayConfigJSON (w.days i)).getD ⟨0, 0⟩) = w.days := by
      funext i
      unfold toDayConfigJSON
      split
      · rename_i zero
        exact zero.symm
      · rfl
    unfold unmarshalJSON
    simp only [decoded, days]
    exact newWeekly_of_valid loaded valid

/-- What is accepted is valid, and its zone is loaded by its name. -/
theorem accepted_valid (lawful : p.Lawful) (created : newWeekly p timeZone days = .ok w) :
    p.loadLocation w.zone.name = .ok w.zone ∧ ∀ i, validate (w.days i) = none := by
  obtain ⟨⟨loc, loaded, rfl⟩, valid⟩ := newWeekly_ok created
  exact ⟨lawful.reload loaded, valid⟩

theorem unmarshalYAML_valid (lawful : p.Lawful) {y : YAML} (accepted : unmarshalYAML p y = .ok w) :
    p.loadLocation w.zone.name = .ok w.zone ∧ ∀ i, validate (w.days i) = none := by
  unfold unmarshalYAML at accepted
  split at accepted
  · cases accepted
    exact ⟨lawful.loadLocation_utc, fun _ => rfl⟩
  · split at accepted
    · cases accepted
    · exact accepted_valid lawful accepted

theorem unmarshalJSON_valid (lawful : p.Lawful) {j : JSON} (accepted : unmarshalJSON p j = .ok w) :
    p.loadLocation w.zone.name = .ok w.zone ∧ ∀ i, validate (w.days i) = none := by
  unfold unmarshalJSON at accepted
  split at accepted
  · cases accepted
  · exact accepted_valid lawful accepted

/-- A valid schedule in a zone that has a name comes back from both of its forms. What is accepted
in a form is written again to what has the same ranges in the same zone. -/
theorem weekly_survives (lawful : p.Lawful) :
    (∀ w loc name, w.location = some loc → p.loadLocation name = .ok loc →
      (∀ i, validate (w.days i) = none) →
      unmarshalYAML p (marshalYAML p w) = .ok w ∧ unmarshalJSON p (marshalJSON w) = .ok w) ∧
      (∀ y w, unmarshalYAML p y = .ok w →
        ∃ w', unmarshalYAML p (marshalYAML p w) = .ok w' ∧ w'.days = w.days ∧ w'.zone = w.zone) ∧
      (∀ j w, unmarshalJSON p j = .ok w →
        ∃ w', unmarshalJSON p (marshalJSON w) = .ok w' ∧ w'.days = w.days ∧ w'.zone = w.zone) := by
  refine ⟨?_, ?_, ?_⟩
  · rintro ⟨location, days⟩ loc name rfl loaded valid
    exact unmarshal_marshal (w := ⟨some loc, days⟩) lawful (lawful.reload loaded) valid
  · intro y w accepted
    obtain ⟨loaded, valid⟩ := unmarshalYAML_valid lawful accepted
    exact ⟨_, (unmarshal_marshal lawful loaded valid).1, rfl, rfl⟩
  · intro j w accepted
    obtain ⟨loaded, valid⟩ := unmarshalJSON_valid lawful accepted
    exact ⟨_, (unmarshal_marshal lawful loaded valid).2, rfl, rfl⟩

end Weekly

/-! ### A schedule for Sundays -/

/-- A zone whose offset never changes. -/
def eastern : Location where
  name := "Etc/GMT-3"
  lookup := fun _ => ⟨10800, none, none⟩
  covers_lookup := fun _ => ⟨by simp, by simp⟩
  lookup_eq := fun _ _ _ => rfl
  abs_offset_lt := fun _ => by decide

/-- Twelve and fourteen hours are written as `timeutil` writes them; any other duration is only told
apart. -/
def sampleText (d : Int) : String :=
  if d = 720 * minute then "12h"
  else if d = 840 * minute then "14h"
  else String.ofList ((if d < 0 then '-' else '+') :: List.replicate d.natAbs 'n')

def sampleParse (s : String) : Except String Int :=
  if s = "12h" then .ok (720 * minute)
  else if s = "14h" then .ok (840 * minute)
  else
    match s.toList with
    | '-' :: rest => .ok (-rest.length)
    | '+' :: rest => .ok rest.length
    | _ => .error "bad duration"

def samplePackages : Packages where
  loadLocation := fun name =>
    if name = "" ∨ name = "UTC" then .ok .utc
    else if name = "Etc/GMT-3" then .ok eastern
    else .error ("unknown time zone " ++ name)
  durationText := sampleText
  parseDuration := sampleParse
  outOfRange := fun _ => -2 ^ 63

theorem sampleParse_sampleText (d : Int) : sampleParse (sampleText d) = .ok d := by
  unfold sampleText
  split
  · rename_i noon
    rw [noon]
    rfl
  · split
    · rename_i two
      rw [two]
      rfl
    · have apart (sign : Char) (rest : List Char) (text : String)
        (notSign : text.toList.head? ≠ some sign) :
          String.ofList (sign :: rest) ≠ text := by
        rintro rfl
        exact notSign (by simp)
      unfold sampleParse
      split
      · rw [if_neg (apart _ _ _ (by decide)), if_neg (apart _ _ _ (by decide))]
        simp only [String.toList_ofList, List.length_replicate, Except.ok.injEq]
        omega
      · rw [if_neg (apart _ _ _ (by decide)), if_neg (apart _ _ _ (by decide))]
        simp only [String.toList_ofList, List.length_replicate, Except.ok.injEq]
        omega

theorem samplePackages_lawful : samplePackages.Lawful where
  loadLocation_utc := rfl
  loadLocation_empty := rfl
  name_eq := by
    intro name loc loaded
    unfold samplePackages at loaded
    dsimp only at loaded
    split at loaded
    · rename_i isUTC
      cases loaded
      rcases isUTC with rfl | rfl
      · rfl
      · rfl
    · split at loaded
      · rename_i isEastern
        cases loaded
        rw [isEastern]
        rfl
      · cases loaded
  parseDuration_text := fun d _ => sampleParse_sampleText d

/-- From noon to two on Sundays. -/
def sunday : Weekly :=
  ⟨some eastern, fun i => if i.val = 0 then ⟨720 * minute, 840 * minute⟩ else ⟨0, 0⟩⟩

theorem sunday_survives :
    unmarshalYAML samplePackages (marshalYAML samplePackages sunday) = .ok sunday ∧
      unmarshalJSON samplePackages (marshalJSON sunday) = .ok sunday := by
  have valid : ∀ i, validate (sunday.days i) = none := by decide
  exact (weekly_survives samplePackages_lawful).1 sunday eastern "Etc/GMT-3" rfl rfl valid

end FirewallCore.Schedule
