import FirewallCore.Configmigrate.Effects

/-!
What each migration does: the fields of the document that it changes, and when
it panics.
-/

namespace FirewallCore.Configmigrate

open FirewallCore.Lib

/-! ### Changed fields -/

section Changed

variable {env : Env} {d : Yobj}

theorem solid_obj {obj : Yobj} (notNil : obj ≠ none) : Solid (some (.obj obj)) := by
  cases obj with
  | none => exact absurd rfl notNil
  | some fields => trivial

theorem stepped1 : Post (migrateTo1 d) (Stepped 1 [] d) :=
  stepped_atVersion (fun d => post_ok (.refl d)) (by simp)

theorem stepped3 : Post (migrateTo3 d) (Stepped 3 ["dns"] d) :=
  stepped_atVersion (fun _ => kept_inObject (by simp)) (by simp)

theorem stepped4 : Post (migrateTo4 d) (Stepped 4 ["clients"] d) := by
  refine stepped_atVersion (fun d => ?_) (by simp)
  split
  · exact post_ok (.refl d)
  · refine post_bind (P := fun _ => True) (fun _ _ => trivial) fun clients _ => ?_
    exact post_ok (kept_updateArr d clients (by simp))

theorem stepped5 : Post (migrateTo5 env d) (Stepped 5 ["auth_name", "auth_pass", "users"] d) := by
  refine stepped_atVersion (fun d => ?_) (by simp)
  refine post_bind (P := Moved ["auth_name", "auth_pass", "users"] (d, some []))
    (moved_moveVal (by simp)) ?_
  rintro ⟨d', user⟩ ⟨kept, -⟩
  refine post_present (post_ok kept) fun pass _ => ?_
  have deleted := kept.trans (kept_delete d' (show "auth_pass" ∈ _ by simp))
  simp only
  split
  · exact post_error
  · refine post_bind (P := fun _ => True) (fun _ _ => trivial) fun user _ => ?_
    exact post_mono (kept_set trivial (by simp)) fun _ set => deleted.trans set

theorem stepped6 : Post (migrateTo6 d) (Stepped 6 ["clients"] d) := by
  refine stepped_atVersion (fun d => post_present (post_ok (.refl d)) fun clients _ => ?_) (by simp)
  refine post_bind (P := fun _ => True) (fun _ _ => trivial) fun clients _ => ?_
  exact post_ok (kept_updateArr d clients (by simp))

theorem stepped7 : Post (migrateTo7 d) (Stepped 7 ["dhcp"] d) := by
  refine stepped_atVersion (fun d => ?_) (by simp)
  split
  · exact post_ok (.refl d)
  · refine post_bind (P := fun _ => True) (fun _ _ => trivial) ?_
    rintro ⟨dhcp, dhcpv4⟩ -
    refine post_bind (P := fun _ => True) (fun _ _ => trivial) fun dhcp _ => ?_
    exact post_ok (kept_update d dhcp (by simp))

theorem stepped8 : Post (migrateTo8 d) (Stepped 8 ["dns"] d) :=
  stepped_atVersion (fun _ => kept_inObject (by simp)) (by simp)

theorem stepped9 : Post (migrateTo9 d) (Stepped 9 ["dns"] d) :=
  stepped_atVersion (fun _ => kept_inObject (by simp)) (by simp)

theorem stepped10 : Post (migrateTo10 env d) (Stepped 10 ["dns"] d) :=
  stepped_atVersion (fun _ => kept_inObject (by simp)) (by simp)

theorem stepped11 : Post (migrateTo11 d) (Stepped 11 ["rlimit_nofile", "os"] d) := by
  refine stepped_atVersion (fun d => post_field fun rlimit _ => ?_) (by simp)
  have deleted : Kept ["rlimit_nofile", "os"] d (d.delete "rlimit_nofile") := kept_delete d (by simp)
  exact post_mono (kept_set trivial (by simp)) fun _ set => deleted.trans set

theorem stepped12 : Post (migrateTo12 d) (Stepped 12 ["dns"] d) :=
  stepped_atVersion (fun _ => kept_inObject (by simp)) (by simp)

theorem stepped13 : Post (migrateTo13 d) (Stepped 13 ["dns", "dhcp"] d) := by
  refine stepped_atVersion (fun d => post_present (post_ok (.refl d)) fun dns _ => ?_) (by simp)
  refine post_present (post_ok (.refl d)) fun dhcp _ => ?_
  refine post_bind (P := fun _ => True) (fun _ _ => trivial) ?_
  rintro ⟨dns, dhcp⟩ -
  exact post_ok ((kept_update d dns (by simp)).trans (kept_update _ dhcp (by simp)))

theorem stepped14 : Post (migrateTo14 d) (Stepped 14 ["clients", "dns"] d) := by
  refine stepped_atVersion (fun d => post_field fun persistent _ => ?_) (by simp)
  refine post_bind (P := Kept ["clients", "dns"] d) (kept_set trivial (by simp)) fun d' set => ?_
  refine post_present (post_ok set) fun dns _ => ?_
  refine post_bind (P := fun _ => True) (fun _ _ => trivial) ?_
  rintro ⟨dns, runtimeClients⟩ -
  have updated := set.trans (kept_update d' dns (show "dns" ∈ _ by simp))
  exact post_mono (kept_set trivial (by simp)) fun _ again => updated.trans again

theorem stepped15 : Post (migrateTo15 d) (Stepped 15 ["dns", "querylog"] d) := by
  refine stepped_atVersion (fun d => post_present (post_ok (.refl d)) fun dns _ => ?_) (by simp)
  refine post_bind (some_joinMoves (by simp)) ?_
  rintro ⟨dns, qlog⟩ notNil
  have updated : Kept ["dns", "querylog"] d (d.update "dns" dns) := kept_update d dns (by simp)
  exact post_mono (kept_set (solid_obj notNil) (by simp)) fun _ set => updated.trans set

theorem stepped16 : Post (migrateTo16 d) (Stepped 16 ["dns", "statistics"] d) := by
  refine stepped_atVersion (fun d => post_present (post_ok (.refl d)) fun dns _ => ?_) (by simp)
  refine post_bind (P := Kept ["dns", "statistics"] d) (kept_set trivial (by simp)) fun d' set => ?_
  refine post_present (post_ok set) fun statsIvl _ => ?_
  refine post_bind (P := fun stats => stats ≠ none) ?_ fun stats notNil => ?_
  · split
    · exact post_ok (by simp)
    · exact post_ok (by simp)
  refine post_bind (P := Kept ["dns", "statistics"] d) ?_ fun d'' again => ?_
  · exact post_mono (kept_set (solid_obj notNil) (by simp)) fun _ again => set.trans again
  exact post_ok (again.trans (kept_update d'' _ (by simp)))

theorem stepped17 : Post (migrateTo17 d) (Stepped 17 ["dns"] d) :=
  stepped_atVersion (fun _ => kept_inObject (by simp)) (by simp)

theorem stepped18 : Post (migrateTo18 d) (Stepped 18 ["dns"] d) :=
  stepped_atVersion (fun _ => kept_inObject (by simp)) (by simp)

theorem stepped19 : Post (migrateTo19 d) (Stepped 19 ["clients"] d) :=
  stepped_atVersion (fun _ => kept_inObject (by simp)) (by simp)

theorem stepped20 : Post (migrateTo20 d) (Stepped 20 ["statistics"] d) :=
  stepped_atVersion (fun _ => kept_inObject (by simp)) (by simp)

theorem stepped21 : Post (migrateTo21 d) (Stepped 21 ["dns"] d) :=
  stepped_atVersion (fun _ => kept_inObject (by simp)) (by simp)

theorem stepped22 : Post (migrateTo22 d) (Stepped 22 ["clients"] d) :=
  stepped_atVersion (fun _ => kept_inObject (by simp)) (by simp)

theorem stepped23 : Post (migrateTo23 env d)
    (Stepped 23 ["bind_host", "bind_port", "web_session_ttl", "http"] d) := by
  refine stepped_atVersion (fun d => post_present (post_ok (.refl d)) fun bindHost _ => ?_) (by simp)
  simp only
  split
  · exact post_error
  · refine post_field fun bindPort _ => ?_
    refine post_field fun sessionTTL _ => ?_
    refine post_bind (P := Kept ["bind_host", "bind_port", "web_session_ttl", "http"] d)
      (kept_set trivial (by simp)) fun d' set => ?_
    have deleted := ((set.trans (kept_delete d' (show "bind_host" ∈ _ by simp))).trans
      (kept_delete _ (show "bind_port" ∈ _ by simp))).trans
      (kept_delete _ (show "web_session_ttl" ∈ _ by simp))
    exact post_ok deleted

/-- The fields that become settings of the log. -/
def logKeys : List String :=
  ["log_file", "log_max_backups", "log_max_size", "log_max_age", "log_compress", "log_localtime",
    "verbose", "log"]

theorem stepped24 : Post (migrateTo24 d) (Stepped 24 logKeys d) := by
  refine stepped_atVersion (fun d => ?_) (by decide)
  refine post_bind (P := fun objs => Moved logKeys (d, some []) objs ∧ objs.2 ≠ none) ?_ ?_
  · intro objs done
    exact ⟨moved_joinMoves (by decide) objs done, some_joinMoves (by simp) objs done⟩
  · rintro ⟨d', logObj⟩ ⟨⟨kept, -⟩, notNil⟩
    simp only
    split
    · exact post_mono (kept_set (solid_obj notNil) (by decide)) fun _ set => kept.trans set
    · exact post_ok kept

theorem stepped25 : Post (migrateTo25 d) (Stepped 25 ["debug_pprof", "http"] d) := by
  refine stepped_atVersion (fun d => post_present (post_ok (.refl d)) fun httpObj _ => ?_) (by simp)
  refine post_bind (P := fun objs => Kept ["debug_pprof", "http"] d objs.1)
    (post_mono (moved_moveVal (by simp)) fun _ moved => moved.1) ?_
  rintro ⟨d', pprofObj⟩ kept
  refine post_bind (P := fun _ => True) (fun _ _ => trivial) fun httpObj _ => ?_
  exact post_ok (kept.trans (kept_update d' httpObj (by simp)))

theorem stepped26 : Post (migrateTo26 d) (Stepped 26 ["dns", "filtering"] d) := by
  refine stepped_atVersion (fun d => post_present (post_ok (.refl d)) fun dns _ => ?_) (by simp)
  refine post_bind (some_joinMoves (by simp)) ?_
  rintro ⟨dns, filteringObj⟩ notNil
  have updated : Kept ["dns", "filtering"] d (d.update "dns" dns) := kept_update d dns (by simp)
  simp only
  split
  · exact post_mono (kept_set (solid_obj notNil) (by simp)) fun _ set => updated.trans set
  · exact post_ok updated

theorem stepped27 : Post (migrateTo27 d) (Stepped 27 ["querylog", "statistics"] d) := by
  refine stepped_atVersion (fun d => ?_) (by simp)
  refine post_bind (P := Kept ["querylog", "statistics"] d) (kept_inObject (by simp)) fun d' first => ?_
  exact post_mono (kept_inObject (by simp)) fun _ second => first.trans second

theorem stepped28 : Post (migrateTo28 d) (Stepped 28 ["dns"] d) :=
  stepped_atVersion (fun _ => kept_inObject (by simp)) (by simp)

theorem stepped29 : Post (migrateTo29 env d) (Stepped 29 ["filtering"] d) := by
  refine stepped_atVersion (fun d => post_present (post_ok (.refl d)) fun filterVals _ => ?_) (by simp)
  refine post_bind (P := fun _ => True) (fun _ _ => trivial) fun paths _ => ?_
  exact kept_inObject (by simp)

end Changed

/-! ### Panics -/

section Panics

variable {env : Env} {d : Yobj}

theorem not_panics1 (doc : d ≠ none) : ¬Panics (migrateTo1 d) :=
  not_panics_atVersion doc fun _ _ _ => not_panics_pure

theorem not_panics2 (doc : d ≠ none) : ¬Panics (migrateTo2 d) :=
  not_panics_atVersion doc fun _ _ _ => not_panics_moveWithin

theorem not_panics3 (doc : d ≠ none) : ¬Panics (migrateTo3 d) := by
  refine not_panics_atVersion doc fun _ _ _ => not_panics_inObject fun dns => ?_
  cases dns with
  | none => exact not_panics_pure
  | some fields =>
    exact not_panics_present not_panics_pure fun bootstrapDNS _ => not_panics_set (by simp)

theorem not_panics5 (doc : d ≠ none) : ¬Panics (migrateTo5 env d) := by
  refine not_panics_atVersion doc fun d' doc' _ => ?_
  refine not_panics_bind (P := Moved ["auth_name"] (d', some [])) ?_ (moved_moveVal (by simp)) ?_
  · intro panics
    exact absurd (panics_moveVal.mp panics).1 (by simp)
  · rintro ⟨d'', user⟩ ⟨kept, userSome⟩
    refine not_panics_present not_panics_pure fun pass _ => ?_
    simp only
    split
    · exact not_panics_error
    · refine not_panics_then (not_panics_set ?_) fun user => not_panics_set (ne_none_delete ?_)
      · rw [← Option.isSome_iff_ne_none, userSome]
        rfl
      · rw [← Option.isSome_iff_ne_none, kept.some, Option.isSome_iff_ne_none]
        exact doc'

/-- The fields that become settings of DHCPv4. -/
def dhcpKeys : List String :=
  ["gateway_ip", "subnet_mask", "range_start", "range_end", "lease_duration", "icmp_timeout_msec"]

theorem panics7 (doc : d ≠ none) : Panics (migrateTo7 d) ↔ NilObject d "dhcp" := by
  refine panics_atVersion doc fun d' _ same => ?_
  rw [NilObject, ← fieldVal_congr (T := Yobj) (same "dhcp" (by decide)), fieldOpt]
  cases fieldVal Yobj d' "dhcp" with
  | error err => exact iff_of_false not_panics_pure (by simp)
  | ok dhcp =>
    cases dhcp with
    | none => exact iff_of_false not_panics_pure (by simp)
    | some dhcp =>
      cases dhcp with
      | none => exact iff_of_true rfl rfl
      | some fields =>
        refine iff_of_false ?_ (by simp)
        refine not_panics_bind (P := fun objs => objs.1 ≠ none) (not_panics_joinMoves (by simp)) ?_ ?_
        · have moved := @moved_joinMoves dhcpKeys
          refine post_mono (moved (by decide)) ?_
          rintro objs ⟨kept, -⟩
          rw [← Option.isSome_iff_ne_none, kept.some]
          rfl
        · rintro ⟨dhcp, dhcpv4⟩ notNil
          exact not_panics_then (not_panics_set notNil) fun _ => not_panics_pure

theorem not_panics8 (doc : d ≠ none) : ¬Panics (migrateTo8 d) := by
  refine not_panics_atVersion doc fun _ _ _ => not_panics_inObject fun dns => ?_
  cases dns with
  | none => exact not_panics_pure
  | some fields =>
    exact not_panics_present not_panics_pure fun bindHost _ => not_panics_set (ne_none_delete (by simp))

theorem not_panics9 (doc : d ≠ none) : ¬Panics (migrateTo9 d) :=
  not_panics_atVersion doc fun _ _ _ => not_panics_inObject fun _ => not_panics_moveWithin

theorem not_panics_addQUICPorts {port : Nat} {ups : Yarr} : ¬Panics (addQUICPorts env port ups) := by
  refine not_panics_changeArr fun uVal _ _ => ?_
  split
  · exact not_panics_pure
  · exact not_panics_error

theorem not_panics_migrateUpstreams {dns : Yobj} {key : String} : ¬Panics (migrateUpstreams env dns key) := by
  cases dns with
  | none => exact not_panics_pure
  | some fields =>
    refine not_panics_field_then fun ups _ => ?_
    cases ups with
    | none => exact not_panics_pure
    | some ups => exact not_panics_then not_panics_addQUICPorts fun _ => not_panics_set (by simp)

theorem not_panics10 (doc : d ≠ none) : ¬Panics (migrateTo10 env d) :=
  not_panics_atVersion doc fun _ _ _ => not_panics_inObject fun _ =>
    not_panics_then not_panics_migrateUpstreams fun _ => not_panics_migrateUpstreams

theorem not_panics11 (doc : d ≠ none) : ¬Panics (migrateTo11 d) :=
  not_panics_atVersion doc fun _ doc' _ => not_panics_field_then fun _ _ =>
    not_panics_set (ne_none_delete doc')

theorem panics12 (doc : d ≠ none) : Panics (migrateTo12 d) ↔ NilObject d "dns" := by
  refine panics_atVersion doc fun d' _ same => ?_
  rw [NilObject, ← fieldVal_congr (T := Yobj) (same "dns" (by decide))]
  refine panics_inObject_of_writes rfl fun fields => ?_
  exact not_panics_field_then fun _ _ => not_panics_set (by simp)

/-- The name that `migrateTo13` moves. -/
def MovesName (d : Yobj) : Prop :=
  ∃ dns name, fieldVal Yobj d "dns" = .ok (some dns) ∧
    fieldVal String dns "local_domain_name" = .ok (some name)

theorem panics13 (doc : d ≠ none) : Panics (migrateTo13 d) ↔ NilObject d "dhcp" ∧ MovesName d := by
  refine panics_atVersion doc fun d' _ same => ?_
  rw [NilObject, MovesName, ← fieldVal_congr (T := Yobj) (same "dhcp" (by decide)),
    ← fieldVal_congr (T := Yobj) (same "dns" (by decide)), panics_field]
  constructor
  · rintro ⟨dns, readDns, panics⟩
    cases dns with
    | none => exact absurd panics not_panics_pure
    | some dns =>
      obtain ⟨dhcp, readDhcp, panics⟩ := panics_field.mp panics
      cases dhcp with
      | none => exact absurd panics not_panics_pure
      | some dhcp =>
        rcases panics_bind_iff.mp panics with moving | ⟨_, _, panics⟩
        · obtain ⟨nil, name, readName⟩ := panics_moveVal.mp moving
          obtain rfl : dhcp = none := nil
          exact ⟨readDhcp, dns, name, readDns, readName⟩
        · exact absurd panics not_panics_pure
  · rintro ⟨nil, dns, name, readDns, readName⟩
    refine ⟨some dns, readDns, panics_field.mpr ⟨some none, nil, ?_⟩⟩
    rw [panics_bind_iff]
    exact .inl (panics_moveVal.mpr ⟨rfl, name, readName⟩)

theorem not_panics14 (doc : d ≠ none) : ¬Panics (migrateTo14 d) := by
  refine not_panics_atVersion doc fun d' doc' _ => not_panics_field_then fun persistent _ => ?_
  refine not_panics_bind (not_panics_set doc') set_ne_none fun d'' doc'' => ?_
  refine not_panics_present not_panics_pure fun dns _ => ?_
  refine not_panics_then ?_ ?_
  · intro panics
    exact absurd (panics_moveVal.mp panics).1 (by simp)
  · rintro ⟨dns, runtimeClients⟩
    exact not_panics_set (ne_none_update doc'')

theorem not_panics15 (doc : d ≠ none) : ¬Panics (migrateTo15 d) := by
  refine not_panics_atVersion doc fun d' doc' _ => not_panics_present not_panics_pure fun dns _ => ?_
  refine not_panics_then (not_panics_joinMoves (by simp)) ?_
  rintro ⟨dns, qlog⟩
  exact not_panics_set (ne_none_update doc')

theorem not_panics16 (doc : d ≠ none) : ¬Panics (migrateTo16 d) := by
  refine not_panics_atVersion doc fun d' doc' _ => not_panics_present not_panics_pure fun dns _ => ?_
  refine not_panics_bind (not_panics_set doc') set_ne_none fun d'' doc'' => ?_
  refine not_panics_present not_panics_pure fun statsIvl _ => ?_
  refine not_panics_then ?_ fun stats => not_panics_then (not_panics_set doc'') fun _ => not_panics_pure
  split
  · exact not_panics_set (by simp)
  · exact not_panics_set (by simp)

theorem panics17 (doc : d ≠ none) : Panics (migrateTo17 d) ↔ NilObject d "dns" := by
  refine panics_atVersion doc fun d' _ same => ?_
  rw [NilObject, ← fieldVal_congr (T := Yobj) (same "dns" (by decide))]
  exact panics_inObject_of_writes rfl fun fields => not_panics_set (by simp)

theorem panics18 (doc : d ≠ none) : Panics (migrateTo18 d) ↔ NilObject d "dns" := by
  refine panics_atVersion doc fun d' _ same => ?_
  rw [NilObject, ← fieldVal_congr (T := Yobj) (same "dns" (by decide))]
  refine panics_inObject_of_writes rfl fun fields => ?_
  refine not_panics_bind (not_panics_set (by simp)) set_ne_none fun dns notNil => ?_
  refine not_panics_bind (P := Moved ["safesearch_enabled"] (dns, some safeSearchFields)) ?_
    (moved_moveVal (by simp)) ?_
  · intro panics
    exact absurd (panics_moveVal.mp panics).1 (by simp)
  · rintro ⟨dns', safeSearch⟩ ⟨kept, -⟩
    refine not_panics_set ?_
    rw [← Option.isSome_iff_ne_none, kept.some, Option.isSome_iff_ne_none]
    exact notNil

theorem panics20 (doc : d ≠ none) : Panics (migrateTo20 d) ↔ NilObject d "statistics" := by
  refine panics_atVersion doc fun d' _ same => ?_
  rw [NilObject, ← fieldVal_congr (T := Yobj) (same "statistics" (by decide))]
  refine panics_inObject_of_writes rfl fun fields => ?_
  exact not_panics_field_then fun _ _ => not_panics_set (by simp)

theorem panics21 (doc : d ≠ none) : Panics (migrateTo21 d) ↔ NilObject d "dns" := by
  refine panics_atVersion doc fun d' _ same => ?_
  rw [NilObject, ← fieldVal_congr (T := Yobj) (same "dns" (by decide))]
  refine panics_inObject_of_writes rfl fun fields => ?_
  refine not_panics_bind (P := Moved ["blocked_services"] (some fields, some [localSchedule])) ?_
    (moved_moveVal (by simp)) ?_
  · intro panics
    exact absurd (panics_moveVal.mp panics).1 (by simp)
  · rintro ⟨dns, svcs⟩ ⟨kept, -⟩
    refine not_panics_set ?_
    rw [← Option.isSome_iff_ne_none, kept.some]
    rfl

theorem not_panics23 (doc : d ≠ none) : ¬Panics (migrateTo23 env d) := by
  refine not_panics_atVersion doc fun d' doc' _ => not_panics_present not_panics_pure fun bindHost _ => ?_
  simp only
  split
  · exact not_panics_error
  · refine not_panics_field_then fun _ _ => not_panics_field_then fun _ _ => ?_
    exact not_panics_then (not_panics_set doc') fun _ => not_panics_pure

theorem not_panics24 (doc : d ≠ none) : ¬Panics (migrateTo24 d) := by
  refine not_panics_atVersion doc fun d' doc' _ => ?_
  refine not_panics_bind (P := Moved logKeys (d', some [])) (not_panics_joinMoves (by simp))
    (moved_joinMoves (by decide)) ?_
  rintro ⟨d'', logObj⟩ ⟨kept, -⟩
  simp only
  split
  · refine not_panics_set ?_
    rw [← Option.isSome_iff_ne_none, kept.some, Option.isSome_iff_ne_none]
    exact doc'
  · exact not_panics_pure

theorem panics25 (doc : d ≠ none) :
    Panics (migrateTo25 d) ↔ NilObject d "http" ∧ ∃ v, fieldVal Bool d "debug_pprof" = .ok v := by
  refine panics_atVersion doc fun d' _ same => ?_
  rw [NilObject, ← fieldVal_congr (T := Yobj) (same "http" (by decide)),
    ← fieldVal_congr (T := Bool) (same "debug_pprof" (by decide)), panics_field]
  constructor
  · rintro ⟨httpObj, readHttp, panics⟩
    cases httpObj with
    | none => exact absurd panics not_panics_pure
    | some httpObj =>
      rcases panics_bind_iff.mp panics with moving | ⟨objs, moved, panics⟩
      · exact absurd (panics_moveVal.mp moving).1 (by simp)
      · rcases panics_bind_iff.mp panics with setting | ⟨_, _, panics⟩
        · obtain rfl : httpObj = none := panics_set.mp setting
          exact ⟨readHttp, returns_moveVal.mp ⟨objs, moved⟩⟩
        · exact absurd panics not_panics_pure
  · rintro ⟨nil, readFlag⟩
    have returns : ∃ objs, moveVal Bool "debug_pprof" "enabled"
        (d', some [("enabled", .bool false), ("port", .int 6060)]) = .ok objs := returns_moveVal.mpr readFlag
    obtain ⟨objs, moved⟩ := returns
    refine ⟨some none, nil, panics_bind_iff.mpr (.inr ⟨objs, moved, ?_⟩)⟩
    exact panics_bind_iff.mpr (.inl (panics_set.mpr rfl))

theorem not_panics26 (doc : d ≠ none) : ¬Panics (migrateTo26 d) := by
  refine not_panics_atVersion doc fun d' doc' _ => not_panics_present not_panics_pure fun dns _ => ?_
  refine not_panics_then (not_panics_joinMoves (by simp)) ?_
  rintro ⟨dns, filteringObj⟩
  simp only
  split
  · exact not_panics_set (ne_none_update doc')
  · exact not_panics_pure

theorem not_panics_replaceDot {key : String} : ¬Panics (replaceDot d key) := by
  refine not_panics_inObject fun obj => not_panics_present not_panics_pure fun ignored _ => ?_
  refine not_panics_then (not_panics_changeArr fun hostVal _ _ => ?_) fun _ => not_panics_pure
  split
  · exact not_panics_pure
  · exact not_panics_pure

theorem not_panics27 (doc : d ≠ none) : ¬Panics (migrateTo27 d) :=
  not_panics_atVersion doc fun _ _ _ => not_panics_then not_panics_replaceDot fun _ => not_panics_replaceDot

theorem panics28 (doc : d ≠ none) : Panics (migrateTo28 d) ↔ NilObject d "dns" := by
  refine panics_atVersion doc fun d' _ same => ?_
  rw [NilObject, ← fieldVal_congr (T := Yobj) (same "dns" (by decide))]
  refine panics_inObject_of_writes rfl fun fields => ?_
  exact not_panics_then (not_panics_set (by simp)) fun _ => not_panics_pure

/-- The filters are objects, so that `migrateTo29` gets to its write. -/
def FilterObjects (d : Yobj) : Prop :=
  ∃ filterVals, fieldVal Yarr d "filters" = .ok (some filterVals) ∧
    ∀ v ∈ filterVals.getD [], ∃ f, v = .obj f

theorem filterPaths_returns {i : Nat} {filters : List YVal} :
    (∃ paths, filterPaths i filters = .ok paths) ↔ ∀ v ∈ filters, ∃ f, v = .obj f := by
  induction filters generalizing i with
  | nil => exact iff_of_true ⟨[], rfl⟩ (by simp)
  | cons v filters ih =>
    rw [List.forall_mem_cons, ← ih (i := i + 1)]
    cases v with
    | obj f =>
      constructor
      · rintro ⟨paths, returned⟩
        refine ⟨⟨f, rfl⟩, ?_⟩
        cases later : filterPaths (i + 1) filters with
        | error stop =>
          rw [filterPaths, later] at returned
          cases returned
        | ok rest => exact ⟨rest, rfl⟩
      · rintro ⟨-, rest, later⟩
        rw [filterPaths, later]
        cases fieldOpt String f "url" with
        | none => exact ⟨_, rfl⟩
        | some u => exact ⟨_, rfl⟩
    | _ =>
      refine iff_of_false ?_ (by simp)
      rintro ⟨paths, returned⟩
      cases returned

theorem not_panics_filterPaths {i : Nat} {filters : List YVal} : ¬Panics (filterPaths i filters) := by
  induction filters generalizing i with
  | nil => exact not_panics_ok
  | cons v filters ih =>
    cases v with
    | obj f =>
      refine not_panics_then ih fun later => ?_
      cases fieldOpt String f "url" with
      | none => exact not_panics_pure
      | some u => exact not_panics_pure
    | _ => exact not_panics_error

theorem panics29 (doc : d ≠ none) :
    Panics (migrateTo29 env d) ↔ NilObject d "filtering" ∧ FilterObjects d := by
  refine panics_atVersion doc fun d' _ same => ?_
  rw [NilObject, FilterObjects, ← fieldVal_congr (T := Yobj) (same "filtering" (by decide)),
    ← fieldVal_congr (T := Yarr) (same "filters" (by decide)), panics_field]
  have writes : ∀ paths, Panics (inObject d' "filtering" fun fltConf =>
      fltConf.set "safe_fs_patterns" (.strings (env.userFilters :: paths))) ↔ NilObject d' "filtering" :=
    fun paths => panics_inObject_of_writes rfl fun fields => not_panics_set (by simp)
  constructor
  · rintro ⟨filterVals, readFilters, panics⟩
    cases filterVals with
    | none => exact absurd panics not_panics_pure
    | some filterVals =>
      rcases panics_bind_iff.mp panics with panics | ⟨paths, returned, panics⟩
      · exact absurd panics not_panics_filterPaths
      · exact ⟨(writes paths).mp panics, filterVals, readFilters, filterPaths_returns.mp ⟨paths, returned⟩⟩
  · rintro ⟨nil, filterVals, readFilters, objects⟩
    obtain ⟨paths, returned⟩ := filterPaths_returns (i := 0).mpr objects
    refine ⟨some filterVals, readFilters, panics_bind_iff.mpr (.inr ⟨paths, returned, ?_⟩)⟩
    exact (writes paths).mpr nil

end Panics

end FirewallCore.Configmigrate
