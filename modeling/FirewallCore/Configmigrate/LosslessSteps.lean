import FirewallCore.Configmigrate.Lossless

/-!
Every migration keeps the settings that it does not overwrite or drop.

In each, the fields other than the ones that it names stay as they are. A field
that it writes to sets nothing by the condition on the document, and one that it
deletes has been moved.
-/

namespace FirewallCore.Configmigrate

open FirewallCore.Lib FirewallCore.Net

/-! ### Versions 1 to 10 -/

section Steps

variable {env : Env} {d : Yobj}

/-- A migration keeps the settings. -/
def KeepsSettings (env : Env) (version : Nat) (migrate : Yobj → Fallible Yobj) : Prop :=
  ∀ d, Lossless version d → Post (migrate d) (KeepsOthers (Carries env version) d)

theorem keeps1 : KeepsSettings env 1 migrateTo1 :=
  fun _ _ => keeps_atVersion fun e _ => post_ok (keepsFields_refl .stays e)

theorem keeps2 : KeepsSettings env 2 migrateTo2 := by
  refine fun d lossless => keeps_atVersion fun e same => ?_
  refine keeps_moveWithin .stays (by decide) rfl ?_ fun p v v' isSame => ?_
  · rw [← same _ (by decide), ← same _ (by decide)]
    exact lossless
  · obtain rfl | ⟨-, rfl, rfl⟩ := isSame
    · exact .moves .coredns
    · exact .moves .coredns

theorem keeps3 : KeepsSettings env 3 migrateTo3 := by
  refine fun d lossless => keeps_atVersion fun e same => ?_
  refine keeps_inObject .stays (post_ok rfl) fun fields _ => ?_
  refine post_present (post_ok (keepsFields_refl (fun _ _ => .stays _ _) _)) fun bootstrapDNS read => ?_
  intro dns' set k
  by_cases here : k = "bootstrap_dns"
  · subst here
    obtain ⟨u, found, value⟩ := get_of_fieldVal read
    have isSame : bootstrapDNS = u := by
      cases u <;> cases value <;> rfl
    subst isSame
    have wrapped : dns'.get "bootstrap_dns" = some (.arr (some [bootstrapDNS])) := by
      rw [get_set set, if_pos rfl]
    refine survives_moved found wrapped fun p v sets => ?_
    exact ⟨.index 0 :: p, v, .moves .bootstrapDNS, sets_index.mpr ⟨bootstrapDNS, rfl, sets⟩⟩
  · refine survives_same (fun _ _ => .stays _ _) ?_
    rw [get_set set, if_neg here]

/-- A client of which a field that sets nothing is written. -/
theorem keeps_client {rule : Rule} {c : Yobj} {key : String} {w : YVal} (stays : ∀ p v, rule p v p v)
    (vacant : Vacant (c.get key)) :
    Post (do return .obj (← Yobj.set c key w) : Fallible YVal) (Keeps rule (.obj c)) := by
  refine post_then fun c' set => post_ok ?_
  refine keeps_obj ?_ (keeps_set stays vacant c' set)
  rintro rfl
  cases set

theorem keeps4 : KeepsSettings env 4 migrateTo4 := by
  refine fun d lossless => keeps_atVersion fun e same => ?_
  cases read : fieldOpt Yarr e "clients" with
  | none => exact post_ok (keepsFields_refl .stays e)
  | some clients =>
    obtain ⟨u, found, value⟩ := get_of_fieldVal (fieldOpt_eq_some read)
    refine post_bind (keeps_changeArr .stays found value ?_) fun _ kept => post_ok kept
    intro list i v foundList member
    split
    · rename_i c
      exact keeps_client (fun _ _ => .stays _ _) (lossless list c ((same _ (by decide)).trans foundList) member)
    · exact post_ok (keeps_refl (fun _ _ => .stays _ _) v)

theorem keeps5 : KeepsSettings env 5 (migrateTo5 env) := by
  refine fun d lossless => keeps_atVersion fun e same => ?_
  obtain ⟨needsPass, vacant⟩ := lossless
  rw [same _ (by decide), same _ (by decide)] at needsPass
  rw [same _ (by decide), same _ (by decide)] at vacant
  refine post_bind moveVal_cases ?_
  rintro ⟨conf, user⟩ moved
  have others : ∀ k, k ≠ "auth_name" → conf.get k = e.get k := by
    intro k other
    rcases moved with ⟨-, whole⟩ | ⟨u, u', -, -, src, -⟩
    · cases whole
      rfl
    · have deleted : conf = e.delete "auth_name" := src
      rw [deleted, get_delete, if_neg other]
  refine post_field fun pass read => ?_
  cases pass with
  | none =>
    have noPass : e.get "auth_pass" = none := by
      rw [← others _ (by decide)]
      exact get_none_of_fieldVal read
    rcases moved with ⟨-, whole⟩ | ⟨u, u', found, -⟩
    · cases whole
      exact post_ok (keepsFields_refl .stays e)
    · exact absurd noPass (needsPass (by rw [found]; simp))
  | some pass =>
    obtain ⟨u, found, value⟩ := get_of_fieldVal read
    rw [others _ (by decide)] at found
    simp only
    split
    · exact post_error
    · rename_i hash hashed
      refine post_then fun user' named => ?_
      intro e' set k
      have users : e'.get "users" = some (.arr (some [.obj user'])) := by
        rw [get_set set, if_pos rfl]
      have first : [YVal.obj user'][0]? = some (.obj user') := rfl
      by_cases isName : k = "auth_name"
      · subst isName
        rcases moved with ⟨absent, -⟩ | ⟨w, w', foundW, boxed, -, dst⟩
        · exact survives_absent absent
        · refine survives_moved foundW users fun p v sets => ?_
          obtain ⟨v', isSame, sets'⟩ := boxed.sets rfl sets
          refine ⟨.index 0 :: "name" :: p, v', .moves (.authName isSame), ?_⟩
          refine sets_index.mpr ⟨_, first, sets_name.mpr ⟨w', ?_, sets'⟩⟩
          rw [get_set named, if_neg (by decide), get_set dst, if_pos rfl]
      · by_cases isPass : k = "auth_pass"
        · subst isPass
          refine survives_moved found users fun p v sets => ?_
          obtain ⟨rfl, rfl⟩ := sets_of_scalar (isScalar_of_string value) sets
          refine ⟨[.index 0, "password"], .str hash, .moves (.authPass value hashed), ?_⟩
          refine sets_index.mpr ⟨_, first, sets_name.mpr ⟨.str hash, ?_, sets_scalar rfl⟩⟩
          rw [get_set named, if_pos rfl]
        · by_cases isUsers : k = "users"
          · subst isUsers
            exact survives_vacant (vacant (by rw [found]; simp))
          · refine survives_same .stays ?_
            rw [get_set set, if_neg isUsers, get_delete, if_neg isPass, others k isName]

theorem keeps6 : KeepsSettings env 6 migrateTo6 := by
  refine fun d lossless => keeps_atVersion fun e same => ?_
  refine keeps_present .stays rfl fun clients u found value => ?_
  refine post_bind (keeps_changeArr .stays found value ?_) fun _ kept => post_ok kept
  intro list i v foundList member
  split
  · rename_i c
    refine post_then fun ids _ => ?_
    exact keeps_client (fun _ _ => .stays _ _) (lossless list c ((same _ (by decide)).trans foundList) member)
  · exact post_error

theorem keeps7 : KeepsSettings env 7 migrateTo7 := by
  refine fun d lossless => keeps_atVersion fun e same => ?_
  cases read : fieldOpt Yobj e "dhcp" with
  | none => exact post_ok (keepsFields_refl .stays e)
  | some dhcp =>
    obtain ⟨u, found, value⟩ := get_of_fieldVal (fieldOpt_eq_some read)
    refine post_then fun ⟨dhcp', dhcpv4⟩ joins => ?_
    have joined : Joined dhcpMoves (dhcp, some []) (dhcp', dhcpv4) := joined_joinMoves (by decide) (by decide) joins
    have keptNil : dhcp'.isSome = dhcp.isSome :=
      (moved_joinMoves (fun move member => List.mem_map_of_mem member) _ joins).1.some
    refine post_then fun new set => ?_
    obtain ⟨fields, rfl⟩ := some_of_set set
    refine post_ok fun k => ?_
    have update : ∀ k, (e.update "dhcp" (some fields)).get k = _ := get_update (ne_none_of_get found)
    by_cases here : k = "dhcp"
    · subst here
      have isObj : u = .obj dhcp := by
        rcases readAs_obj value with ⟨-, rfl⟩ | isObj
        · obtain rfl : dhcp' = none := by simpa using keptNil
          cases set
        · exact isObj
      rw [isObj] at found
      have found' := (update "dhcp").trans (if_pos rfl)
      refine survives_fields .stays found ?_ ?_
      · rintro rfl
        obtain rfl : dhcp' = none := by simpa using keptNil
        cases set
      · intro k w p v foundW sets
        rcases joined.source foundW with ⟨move, member, rfl, w', boxed, moved⟩ | stayed
        · obtain ⟨v', isSame, sets'⟩ := boxed.sets move.kind.isScalar_zero sets
          refine ⟨"dhcp", _, "dhcpv4" :: move.dstKey :: p, v', .moves (.dhcpv4 member isSame), found', ?_⟩
          refine sets_name.mpr ⟨.obj dhcpv4, ?_, sets_name.mpr ⟨w', moved, sets'⟩⟩
          rw [get_set set, if_pos rfl]
        · have other : k ≠ "dhcpv4" := by
            rintro rfl
            exact lossless dhcp ((same _ (by decide)).trans found) w p v foundW sets
          refine ⟨"dhcp", _, k :: p, v, .stays _ v, found', sets_name.mpr ⟨w, ?_, sets⟩⟩
          rw [get_set set, if_neg other]
          exact stayed
    · refine survives_same .stays ?_
      rw [update, if_neg here]

theorem keeps8 : KeepsSettings env 8 migrateTo8 := by
  refine fun d lossless => keeps_atVersion fun e same => ?_
  refine keeps_inObject .stays (post_ok rfl) fun fields isDns => ?_
  refine keeps_present (fun _ _ => .stays _ _) rfl fun bindHost u found value => ?_
  intro dns' set k
  by_cases src : k = "bind_host"
  · subst src
    have hosts : dns'.get "bind_hosts" = some (.arr (some [.str bindHost])) := by
      rw [get_set set, if_pos rfl]
    refine survives_moved found hosts fun p v sets => ?_
    have boxed : Boxed (.str "") u (.str bindHost) := boxed_of_readAs value
    obtain ⟨v', isSame, sets'⟩ := boxed.sets rfl sets
    exact ⟨.index 0 :: p, v', .moves (.dnsBindHost isSame), sets_index.mpr ⟨.str bindHost, rfl, sets'⟩⟩
  · by_cases dst : k = "bind_hosts"
    · subst dst
      refine survives_vacant (lossless _ ((same _ (by decide)).trans isDns) ?_)
      rw [found]
      simp
    · refine survives_same (fun _ _ => .stays _ _) ?_
      rw [get_set set, if_neg dst, get_delete, if_neg src]

theorem keeps9 : KeepsSettings env 9 migrateTo9 := by
  refine fun d lossless => keeps_atVersion fun e same => ?_
  refine keeps_inObject .stays (post_ok rfl) fun fields isDns => ?_
  refine keeps_moveWithin (fun _ _ => .stays _ _) (by decide) rfl ?_ fun p v v' isSame => .moves (.autohostTLD isSame)
  exact lossless _ ((same _ (by decide)).trans isDns)

/-- The upstreams under a key have their ports, and nothing else has changed. -/
theorem migrateUpstreams_cases {dns : Yobj} {key : String} (listed : key ∈ ["upstream_dns", "local_ptr_upstreams"]) :
    Post (migrateUpstreams env dns key) (fun dns' => (∀ k, k ≠ key → dns'.get k = dns.get k) ∧
      ∀ u, dns.get key = some u → ∃ u', dns'.get key = some u' ∧
        Keeps (Under key (Under "dns" (Carries env 10))) u u') := by
  refine post_field fun found read => ?_
  cases found with
  | none =>
    refine post_ok ⟨fun _ _ => rfl, fun u found => ?_⟩
    rw [get_none_of_fieldVal read] at found
    cases found
  | some ups =>
    obtain ⟨u, found, value⟩ := get_of_fieldVal read
    refine post_then fun ups' ported => ?_
    intro dns' set
    refine ⟨fun k other => by rw [get_set set, if_neg other], fun w foundW => ?_⟩
    rw [found] at foundW
    cases foundW
    refine ⟨.arr ups', by rw [get_set set, if_pos rfl], ?_⟩
    cases ups with
    | none =>
      cases ported
      have boxed : Boxed (.arr none) u (.arr none) := boxed_of_readAs value
      intro p v sets
      obtain ⟨v', isSame, sets'⟩ := boxed.sets rfl sets
      obtain ⟨rfl, -⟩ := sets_of_scalar rfl sets'
      exact ⟨[], v', .moves (.upstreams listed isSame), sets'⟩
    | some list =>
      rcases readAs_arr value with ⟨-, none⟩ | rfl
      · cases none
      refine post_bind (Q := fun ups' => Keeps _ (.arr (some list)) (.arr ups')) get_changeItems ?_ ups' ported
      intro list' changed
      refine post_ok (keeps_arr fun i v at_ => ?_)
      obtain ⟨v', at', change⟩ := changed i v at_
      refine ⟨v', at', ?_⟩
      split at change
      · cases change
        intro p w sets
        obtain ⟨rfl, rfl⟩ := sets_of_scalar rfl sets
        exact ⟨[], _, .moves (.upstream listed), sets_scalar rfl⟩
      · cases change

theorem keeps10 : KeepsSettings env 10 (migrateTo10 env) := by
  refine fun d lossless => keeps_atVersion fun e same => ?_
  refine keeps_inObject .stays (post_ok rfl) fun fields isDns => ?_
  refine post_bind (migrateUpstreams_cases (by decide)) fun dns₁ first => ?_
  refine post_mono (migrateUpstreams_cases (by decide)) fun dns₂ second k => ?_
  intro u p v found sets
  by_cases isFirst : k = "upstream_dns"
  · subst isFirst
    obtain ⟨u', found', keeps⟩ := first.2 u found
    exact survives_moved found ((second.1 _ (by decide)).trans found') keeps u p v found sets
  · have found₁ := (first.1 k isFirst).trans found
    by_cases isSecond : k = "local_ptr_upstreams"
    · subst isSecond
      obtain ⟨u', found', keeps⟩ := second.2 u found₁
      exact survives_moved found found' keeps u p v found sets
    · exact ⟨k, u, p, v, .stays _ v, (second.1 k isSecond).trans found₁, sets⟩

/-! ### Versions 11 to 20 -/

theorem keeps11 : KeepsSettings env 11 migrateTo11 := by
  refine fun d lossless => keeps_atVersion fun e same => ?_
  refine post_field fun rlimit read => ?_
  intro e' set k
  by_cases dst : k = "os"
  · subst dst
    exact survives_vacant (same "os" (by decide) ▸ lossless)
  · by_cases src : k = "rlimit_nofile"
    · subst src
      cases rlimit with
      | none => exact survives_absent (get_none_of_fieldVal read)
      | some n =>
        obtain ⟨u, found, value⟩ := get_of_fieldVal read
        have os := (get_set set "os").trans (if_pos rfl)
        refine survives_moved found os fun p v sets => ?_
        have boxed : Boxed (.int 0) u (.int n) := boxed_of_readAs value
        obtain ⟨v', isSame, sets'⟩ := boxed.sets rfl sets
        exact ⟨"rlimit_nofile" :: p, v', .moves (.rlimit isSame), sets_name.mpr ⟨.int n, rfl, sets'⟩⟩
    · refine survives_same .stays ?_
      rw [get_set set, if_neg dst, get_delete, if_neg src]

theorem days_eq {n : Int} (fits : IsDuration (n * 86400000000000)) : days n = n * 86400000000000 :=
  Int.bmod_eq_of_le (by simpa using fits.1) (by simpa using fits.2)

theorem hours_eq {n : Int} (fits : IsDuration (n * 3600000000000)) : hours n = n * 3600000000000 :=
  Int.bmod_eq_of_le (by simpa using fits.1) (by simpa using fits.2)

/-- An interval that is read, if it is a number that fits. -/
theorem isDuration_of_readAs {u : YVal} {n unit : Int} (fits : ∀ n, u = .int n → IsDuration (n * unit))
    (read : readAs Int u = some n) : IsDuration (n * unit) := by
  unfold readAs at read
  split at read
  · cases read
    have zero : (GoType.zero : Int) * unit = 0 := Int.zero_mul unit
    rw [zero]
    exact ⟨by decide, by decide⟩
  · exact fits n (cast_int.mp read)

/-- A number of days becomes a duration where it is. -/
theorem keeps_days {rule : Rule} {d : Yobj} {key : String} {f : Option Int → Int} (stays : ∀ p v, rule p v p v)
    (fits : ∀ n u, d.get key = some u → readAs Int u = some n → IsDuration (f (some n) * 86400000000000))
    (moves : ∀ n u, readAs Int u = some n → rule [.name key] u [.name key] (.duration (f (some n) * 86400000000000))) :
    Post (field Int d key >>= fun ivl => d.set key (.duration (days (f ivl)))) (KeepsFields rule d) := by
  refine post_field fun ivl read => ?_
  intro d' set k
  by_cases here : k = key
  · subst here
    cases ivl with
    | none => exact survives_absent (get_none_of_fieldVal read)
    | some n =>
      obtain ⟨u, found, value⟩ := get_of_fieldVal read
      refine survives_moved found ((get_set set _).trans (if_pos rfl)) fun p v sets => ?_
      obtain ⟨rfl, rfl⟩ := sets_of_scalar (isScalar_of_int value) sets
      refine ⟨[], _, moves n _ value, ?_⟩
      rw [days_eq (fits n _ found value)]
      exact sets_scalar rfl
  · refine survives_same stays ?_
    rw [get_set set, if_neg here]

theorem keeps12 : KeepsSettings env 12 migrateTo12 := by
  refine fun d lossless => keeps_atVersion fun e same => ?_
  refine keeps_inObject .stays post_error fun fields isDns => ?_
  refine keeps_days (f := (·.getD 90)) (fun _ _ => .stays _ _) (fun n u found value => ?_) fun n u value =>
    .moves (.querylogInterval value)
  refine isDuration_of_readAs (fun n isInt => ?_) value
  exact lossless _ ((same _ (by decide)).trans isDns) n (isInt ▸ found)

theorem keeps13 : KeepsSettings env 13 migrateTo13 := by
  refine fun d lossless => keeps_atVersion fun e same => ?_
  refine keeps_present .stays rfl fun dns u found value => ?_
  refine keeps_present .stays rfl fun dhcp t foundT valueT => ?_
  refine post_bind moveVal_cases ?_
  rintro ⟨dns', dhcp'⟩ (⟨-, whole⟩ | ⟨w, w', foundW, boxed, src, dst⟩)
  · cases whole
    refine post_ok fun k => survives_same .stays ?_
    have foundT' := (get_update_read found value "dhcp").trans foundT
    rw [get_update_read foundT' valueT, get_update_read found value]
  · obtain rfl : dns' = dns.delete "local_domain_name" := src
    have moved : dhcp.set "local_domain_name" w' = .ok dhcp' := dst
    have isDns : e.get "dns" = some (.obj dns) := by
      rcases readAs_obj value with ⟨-, rfl⟩ | rfl
      · cases foundW
      · exact found
    have isDhcp : e.get "dhcp" = some (.obj dhcp) := by
      rcases readAs_obj valueT with ⟨-, rfl⟩ | rfl
      · cases moved
      · exact foundT
    have first : ∀ k, (e.update "dns" (dns.delete "local_domain_name")).get k = _ :=
      get_update_of_obj isDns isSome_delete
    have second := get_update_of_obj ((first "dhcp").trans isDhcp) (isSome_set dhcp' moved)
    refine post_ok fun k => ?_
    by_cases isSrc : k = "dns"
    · subst isSrc
      have dhcpNow := (second "dhcp").trans (if_pos rfl)
      have dnsNow := ((second "dns").trans (if_neg (by decide))).trans ((first "dns").trans (if_pos rfl))
      refine survives_taken .stays isDns foundW dnsNow fun p v sets => ?_
      obtain ⟨v', isSame, sets'⟩ := boxed.sets rfl sets
      refine ⟨"dhcp", _, "local_domain_name" :: p, v', .moves (.localDomainName isSame), dhcpNow, ?_⟩
      refine sets_name.mpr ⟨w', ?_, sets'⟩
      rw [get_set moved, if_pos rfl]
    · by_cases isDst : k = "dhcp"
      · subst isDst
        have vacant : Vacant (dhcp.get "local_domain_name") := by
          refine lossless dns ((same _ (by decide)).trans isDns) dhcp ((same _ (by decide)).trans isDhcp) ?_
          have named : dns.get "local_domain_name" = some w := foundW
          rw [named]
          simp
        refine survives_moved isDhcp ((second "dhcp").trans (if_pos rfl)) (keeps_obj ?_ ?_)
        · rintro rfl
          cases moved
        · exact keeps_set (fun _ _ => .stays _ _) vacant dhcp' moved
      · refine survives_same .stays ?_
        rw [second, if_neg isDst, first, if_neg isSrc]

/-- The array of clients, within the new object. -/
theorem survives_clients {e e' : Yobj} {clients : Option Yarr} {sources : Yobj}
    (read : fieldVal Yarr e "clients" = .ok clients)
    (here : e'.get "clients" = some (clientsObject (clients.getD (some [])) sources)) :
    Survives (Carries env 14) e "clients" e' := by
  cases clients with
  | none => exact survives_absent (get_none_of_fieldVal read)
  | some items =>
    obtain ⟨u, found, value⟩ := get_of_fieldVal read
    have boxed : Boxed (.arr none) u (.arr items) := boxed_of_readAs value
    refine survives_moved found here fun p v sets => ?_
    obtain ⟨v', isSame, sets'⟩ := boxed.sets rfl sets
    exact ⟨"persistent" :: p, v', .moves (.clients isSame), sets_name.mpr ⟨.arr items, rfl, sets'⟩⟩

theorem keeps14 : KeepsSettings env 14 migrateTo14 := by
  refine fun d lossless => keeps_atVersion fun e same => ?_
  refine post_field fun clients read => ?_
  refine post_then fun e₁ set => ?_
  refine post_field fun dns readDns => ?_
  cases dns with
  | none =>
    refine post_ok fun k => ?_
    by_cases here : k = "clients"
    · subst here
      exact survives_clients read ((get_set set "clients").trans (if_pos rfl))
    · refine survives_same .stays ?_
      rw [get_set set, if_neg here]
  | some dns =>
    obtain ⟨u, found, value⟩ := get_of_fieldVal readDns
    have foundE : e.get "dns" = some u := ((get_set set "dns").trans (if_neg (by decide))).symm.trans found
    refine post_bind moveVal_cases ?_
    rintro ⟨dns', sources⟩ moved
    intro e' set' k
    have sources' := (get_set set' "clients").trans (if_pos rfl)
    by_cases here : k = "clients"
    · subst here
      exact survives_clients read sources'
    · have now : e'.get k = (e₁.update "dns" dns').get k := (get_set set' k).trans (if_neg here)
      rcases moved with ⟨-, whole⟩ | ⟨w, w', foundW, boxed, src, dst⟩
      · cases whole
        refine survives_same .stays ?_
        rw [now, get_update_read found value, get_set set, if_neg here]
      · obtain rfl : dns' = dns.delete "resolve_clients" := src
        have isDns : e₁.get "dns" = some (.obj dns) := by
          rcases readAs_obj value with ⟨-, rfl⟩ | rfl
          · cases foundW
          · exact found
        rw [get_update_of_obj isDns isSome_delete] at now
        by_cases isSrc : k = "dns"
        · subst isSrc
          rw [if_pos rfl] at now
          rw [isDns] at found
          cases found
          refine survives_taken .stays foundE foundW now fun p v sets => ?_
          obtain ⟨v', isSame, sets'⟩ := boxed.sets rfl sets
          refine ⟨"clients", _, "runtime_sources" :: "rdns" :: p, v', .moves (.resolveClients isSame), sources', ?_⟩
          refine sets_name.mpr ⟨.obj sources, rfl, sets_name.mpr ⟨w', ?_, sets'⟩⟩
          rw [get_set dst, if_pos rfl]
        · refine survives_same .stays ?_
          rw [now, if_neg isSrc, get_set set, if_neg here]

theorem keeps15 : KeepsSettings env 15 migrateTo15 := by
  refine fun d lossless => keeps_atVersion fun e same => ?_
  refine keeps_present .stays rfl fun dns u found value => ?_
  refine post_then fun ⟨dns', qlog⟩ joins => ?_
  have joined : Joined querylogMoves (dns, _) (dns', qlog) := joined_joinMoves (by decide) (by decide) joins
  have keptNil : dns'.isSome = dns.isSome :=
    (moved_joinMoves (fun move member => List.mem_map_of_mem member) _ joins).1.some
  intro e' set k
  by_cases dst : k = "querylog"
  · subst dst
    have vacant : Vacant (d.get "querylog") := lossless (by
      rw [same _ (by decide), found]
      simp)
    exact survives_vacant (same "querylog" (by decide) ▸ vacant)
  · have now : e'.get k = (e.update "dns" dns').get k := (get_set set k).trans (if_neg dst)
    by_cases src : k = "dns"
    · subst src
      refine survives_joined .stays found value joined keptNil now
        (fun _ => (get_set set "querylog").trans (if_pos rfl)) ?_
      exact fun move member p v v' isSame => .moves (.querylog member isSame)
    · refine survives_same .stays ?_
      rw [now]
      exact (kept_update e dns' (List.mem_singleton_self "dns")).get (by simpa using src)

/-- The interval is a new setting, or says that statistics are off. -/
theorem survives_interval {e' stats stats' : Yobj} {u : YVal} {n : Int} {p : Place} {v : YVal}
    (read : readAs Int u = some n) (sets : u.Sets p v)
    (set : (if n = 0 then stats.set "enabled" (.bool false) else stats.set "interval" (.int n)) = .ok stats')
    (here : e'.get "statistics" = some (.obj stats')) :
    ∃ k' u' p' v', Carries env 16 ("dns" :: "statistics_interval" :: p) v (.name k' :: p') v' ∧
      e'.get k' = some u' ∧ u'.Sets p' v' := by
  have boxed : Boxed (.int 0) u (.int n) := boxed_of_readAs read
  split at set
  · rename_i zero
    subst zero
    obtain ⟨rfl, rfl⟩ := sets_of_scalar (isScalar_of_int read) sets
    refine ⟨"statistics", _, ["enabled"], .bool false, .moves (.noStatistics read), here, ?_⟩
    exact sets_name.mpr ⟨.bool false, (get_set set _).trans (if_pos rfl), sets_scalar rfl⟩
  · obtain ⟨v', isSame, sets'⟩ := boxed.sets rfl sets
    refine ⟨"statistics", _, "interval" :: p, v', .moves (.statisticsInterval isSame), here, ?_⟩
    exact sets_name.mpr ⟨.int n, (get_set set _).trans (if_pos rfl), sets'⟩

theorem keeps16 : KeepsSettings env 16 migrateTo16 := by
  refine fun d lossless => keeps_atVersion fun e same => ?_
  refine keeps_present .stays rfl fun dns u found value => ?_
  have vacant : Vacant (e.get "statistics") := by
    rw [← same _ (by decide)]
    refine lossless ?_
    rw [same _ (by decide), found]
    simp
  refine post_then fun e₁ set => ?_
  refine post_present (post_ok (keeps_set .stays vacant e₁ set)) fun statsIvl readIvl => ?_
  obtain ⟨w, foundW, valueW⟩ := get_of_fieldVal readIvl
  refine post_then fun stats setStats => ?_
  refine post_then fun e₂ set' => post_ok fun k => ?_
  have isDns : e.get "dns" = some (.obj dns) := by
    rcases readAs_obj value with ⟨-, rfl⟩ | rfl
    · cases foundW
    · exact found
  have others : ∀ k, k ≠ "statistics" → e₂.get k = e.get k := by
    intro k other
    rw [get_set set', if_neg other, get_set set, if_neg other]
  have now := get_update_of_obj ((others "dns" (by decide)).trans isDns)
    (isSome_delete : (dns.delete "statistics_interval").isSome = dns.isSome)
  by_cases dst : k = "statistics"
  · subst dst
    exact survives_vacant vacant
  · by_cases src : k = "dns"
    · subst src
      refine survives_taken .stays isDns foundW ((now "dns").trans (if_pos rfl)) fun p v sets => ?_
      refine survives_interval valueW sets setStats ?_
      rw [now, if_neg (by decide), get_set set', if_pos rfl]
    · refine survives_same .stays ?_
      rw [now, if_neg src, others k dst]

theorem keeps17 : KeepsSettings env 17 migrateTo17 := by
  refine fun d lossless => keeps_atVersion fun e same => ?_
  refine keeps_inObject .stays post_error fun fields isDns => ?_
  intro dns' set k
  by_cases here : k = "edns_client_subnet"
  · subst here
    intro u p v found sets
    have isFlag := lossless _ ((same _ (by decide)).trans isDns)
    cases read : readAs Bool u with
    | none => exact absurd sets (isFlag u found read u p v found)
    | some enabled =>
      have boxed : Boxed (.bool false) u (.bool enabled) := boxed_of_readAs read
      obtain ⟨v', isSame, sets'⟩ := boxed.sets rfl sets
      refine ⟨"edns_client_subnet", _, "enabled" :: p, v', .moves (.ednsClientSubnet isSame),
        (get_set set _).trans (if_pos rfl), sets_name.mpr ⟨.bool enabled, ?_, sets'⟩⟩
      rw [fieldOpt_eq, found, Option.bind_some, read]
      rfl
  · refine survives_same (fun _ _ => .stays _ _) ?_
    rw [get_set set, if_neg here]

theorem keeps18 : KeepsSettings env 18 migrateTo18 := by
  refine fun d lossless => keeps_atVersion fun e same => ?_
  refine keeps_inObject .stays post_error fun fields isDns => ?_
  have vacant := lossless _ ((same _ (by decide)).trans isDns)
  refine post_then fun dns₁ set => ?_
  refine post_bind moveVal_cases ?_
  rintro ⟨dns₂, safeSearch⟩ moved
  intro dns' set' k
  have others : ∀ k, k ≠ "safesearch_enabled" → dns₂.get k = dns₁.get k := by
    intro k other
    rcases moved with ⟨-, whole⟩ | ⟨u, u', -, -, src, -⟩
    · cases whole
      rfl
    · obtain rfl : dns₂ = dns₁.delete "safesearch_enabled" := src
      rw [get_delete, if_neg other]
  by_cases dst : k = "safe_search"
  · subst dst
    exact survives_vacant vacant
  · by_cases src : k = "safesearch_enabled"
    · subst src
      rcases moved with ⟨absent, -⟩ | ⟨u, u', found, boxed, -, named⟩
      · refine survives_absent ?_
        rw [← absent, get_set set, if_neg (by decide)]
      · rw [get_set set, if_neg (by decide)] at found
        refine survives_moved found ((get_set set' _).trans (if_pos rfl)) fun p v sets => ?_
        obtain ⟨v', isSame, sets'⟩ := boxed.sets rfl sets
        refine ⟨"enabled" :: p, v', .moves (.safeSearch isSame), sets_name.mpr ⟨u', ?_, sets'⟩⟩
        rw [get_set named, if_pos rfl]
    · refine survives_same (fun _ _ => .stays _ _) ?_
      rw [get_set set', if_neg dst, others k src, get_set set, if_neg dst]

/-- A client whose flag is moved to its settings for safe search, or stays where it is. -/
theorem keeps_safeSearch {rule : Rule} {c : Yobj} (stays : ∀ p v, rule p v p v) (vacant : Vacant (c.get "safe_search"))
    (moves : ∀ p v v', Same (.bool false) p v v' →
      rule ("safesearch_enabled" :: p) v ("safe_search" :: "enabled" :: p) v') :
    Post (do
      let (c, safeSearch) ← tryMove (moveVal Bool "safesearch_enabled" "enabled") (c, some safeSearchFields)
      let c ← Yobj.set c "safe_search" (.obj safeSearch)
      return .obj c : Fallible YVal) (Keeps rule (.obj c)) := by
  refine post_then fun ⟨c₁, safeSearch⟩ tried => ?_
  refine post_then fun c' set => post_ok ?_
  unfold tryMove at tried
  split at tried
  · cases tried
    refine keeps_obj ?_ (keeps_set stays vacant c' set)
    rintro rfl
    cases set
  · rcases moveVal_cases _ tried with ⟨-, whole⟩ | ⟨u, u', found, boxed, src, named⟩
    · cases whole
      refine keeps_obj ?_ (keeps_set stays vacant c' set)
      rintro rfl
      cases set
    · obtain rfl : c₁ = c.delete "safesearch_enabled" := src
      refine keeps_obj (ne_none_of_get found) fun k => ?_
      by_cases isDst : k = "safe_search"
      · subst isDst
        exact survives_vacant vacant
      · by_cases isSrc : k = "safesearch_enabled"
        · subst isSrc
          refine survives_moved found ((get_set set _).trans (if_pos rfl)) fun p v sets => ?_
          obtain ⟨v', isSame, sets'⟩ := boxed.sets rfl sets
          exact ⟨"enabled" :: p, v', moves p v v' isSame, sets_name.mpr ⟨u', (get_set named _).trans (if_pos rfl), sets'⟩⟩
        · refine survives_same stays ?_
          rw [get_set set, if_neg isDst, get_delete, if_neg isSrc]

theorem keeps19 : KeepsSettings env 19 migrateTo19 := by
  refine fun d lossless => keeps_atVersion fun e same => ?_
  refine keeps_inObject .stays (post_ok rfl) fun fields isClients => ?_
  cases read : fieldOpt Yarr (some fields) "persistent" with
  | none => exact post_ok (keepsFields_refl (fun _ _ => .stays _ _) _)
  | some persistent =>
    obtain ⟨u, found, value⟩ := get_of_fieldVal (fieldOpt_eq_some read)
    refine post_bind (keeps_changeArr (fun _ _ => .stays _ _) found value ?_) fun _ kept => post_ok kept
    intro list i v foundList member
    split
    · rename_i c
      refine keeps_safeSearch (fun _ _ => .stays _ _) ?_ fun p v v' isSame => .moves (.clientSafeSearch isSame)
      exact lossless _ ((same _ (by decide)).trans isClients) list c foundList member
    · exact post_ok (keeps_refl (fun _ _ => .stays _ _) _)

theorem keeps20 : KeepsSettings env 20 migrateTo20 := by
  refine fun d lossless => keeps_atVersion fun e same => ?_
  refine keeps_inObject .stays post_error fun fields isStats => ?_
  refine keeps_days (f := fun ivl => if ivl.getD 0 = 0 then 1 else ivl.getD 0) (fun _ _ => .stays _ _)
    (fun n u found value => ?_) fun n u value => .moves (.interval value)
  dsimp only [Option.getD_some]
  split
  · exact ⟨by decide, by decide⟩
  · refine isDuration_of_readAs (fun n isInt => ?_) value
    exact lossless _ ((same _ (by decide)).trans isStats) n (isInt ▸ found)

/-! ### Versions 21 to 29 -/

theorem keeps21 : KeepsSettings env 21 migrateTo21 := by
  refine fun d lossless => keeps_atVersion fun e same => ?_
  refine keeps_inObject .stays post_error fun fields isDns => ?_
  refine post_bind moveVal_cases ?_
  rintro ⟨dns, svcs⟩ moved
  intro dns' set k
  by_cases here : k = "blocked_services"
  · subst here
    rcases moved with ⟨absent, -⟩ | ⟨u, u', found, boxed, -, dst⟩
    · exact survives_absent absent
    · refine survives_moved found ((get_set set _).trans (if_pos rfl)) fun p v sets => ?_
      obtain ⟨v', isSame, sets'⟩ := boxed.sets rfl sets
      refine ⟨"ids" :: p, v', .moves (.blockedServices isSame), sets_name.mpr ⟨u', ?_, sets'⟩⟩
      rw [get_set dst, if_pos rfl]
  · refine survives_same (fun _ _ => .stays _ _) ?_
    rw [get_set set, if_neg here]
    rcases moved with ⟨-, whole⟩ | ⟨u, u', -, -, src, -⟩
    · cases whole
      rfl
    · obtain rfl : dns = Yobj.delete (some fields) "blocked_services" := src
      rw [get_delete, if_neg here]

theorem keeps22 : KeepsSettings env 22 migrateTo22 := by
  refine fun d lossless => keeps_atVersion fun e same => ?_
  refine keeps_inObject .stays (post_ok rfl) fun fields isClients => ?_
  refine keeps_present (fun _ _ => .stays _ _) rfl fun persistent u found value => ?_
  refine post_bind (keeps_changeArr (fun _ _ => .stays _ _) found value ?_) fun _ kept => post_ok kept
  intro list i v foundList member
  split
  · rename_i c
    split
    · exact post_error
    · exact post_ok (keeps_refl (fun _ _ => .stays _ _) _)
    · rename_i services readServices
      obtain ⟨w, foundW, valueW⟩ := get_of_fieldVal readServices
      refine post_then fun c' set => post_ok (keeps_obj (ne_none_of_get foundW) fun k => ?_)
      by_cases here : k = "blocked_services"
      · subst here
        refine survives_moved foundW ((get_set set _).trans (if_pos rfl)) fun p v sets => ?_
        have boxed : Boxed (.arr none) w (.arr services) := boxed_of_readAs valueW
        obtain ⟨v', isSame, sets'⟩ := boxed.sets rfl sets
        exact ⟨"ids" :: p, v', .moves (.clientBlockedServices isSame), sets_name.mpr ⟨.arr services, rfl, sets'⟩⟩
      · refine survives_same (fun _ _ => .stays _ _) ?_
        rw [get_set set, if_neg here]
  · exact post_error

theorem keeps23 : KeepsSettings env 23 (migrateTo23 env) := by
  refine fun d lossless => keeps_atVersion fun e same => ?_
  refine keeps_present .stays rfl fun bindHost u found value => ?_
  obtain ⟨vacant, isPort, isTTL⟩ := lossless (by
    rw [same _ (by decide), found]
    simp)
  rw [same _ (by decide)] at vacant
  simp only
  split
  · exact post_error
  · rename_i addr parsed
    refine post_field fun bindPort readPort => ?_
    refine post_field fun sessionTTL readTTL => ?_
    refine post_then fun e₁ set => post_ok fun k => ?_
    have http : (((e₁.delete "bind_host").delete "bind_port").delete "web_session_ttl").get "http" =
        some (object [
          ("address", .str (addrPortString addr (bindPort.getD 0))),
          ("session_ttl", .str (env.durationString (hours (sessionTTL.getD 0))))]) := by
      rw [get_delete, if_neg (by decide), get_delete, if_neg (by decide), get_delete, if_neg (by decide),
        get_set set, if_pos rfl]
    by_cases isHost : k = "bind_host"
    · subst isHost
      refine survives_moved found http fun p v sets => ?_
      obtain ⟨rfl, rfl⟩ := sets_of_scalar (isScalar_of_string value) sets
      exact ⟨["address"], _, .moves (.bindHost value parsed), sets_name.mpr ⟨_, rfl, sets_scalar rfl⟩⟩
    · by_cases isPortKey : k = "bind_port"
      · subst isPortKey
        cases bindPort with
        | none => exact survives_absent (get_none_of_fieldVal readPort)
        | some port =>
          obtain ⟨w, foundW, valueW⟩ := get_of_fieldVal readPort
          have inRange : 0 ≤ port ∧ port < 2 ^ 16 := by
            cases w <;> cases valueW
            · exact ⟨by decide, by decide⟩
            · exact isPort port ((same _ (by decide)).trans foundW)
          refine survives_moved foundW http fun p v sets => ?_
          obtain ⟨rfl, rfl⟩ := sets_of_scalar (isScalar_of_int valueW) sets
          exact ⟨["address"], _, .moves (.bindPort valueW parsed inRange.1 inRange.2),
            sets_name.mpr ⟨_, rfl, sets_scalar rfl⟩⟩
      · by_cases isTTLKey : k = "web_session_ttl"
        · subst isTTLKey
          cases sessionTTL with
          | none => exact survives_absent (get_none_of_fieldVal readTTL)
          | some ttl =>
            obtain ⟨w, foundW, valueW⟩ := get_of_fieldVal readTTL
            have fits : IsDuration (ttl * 3600000000000) := by
              refine isDuration_of_readAs (fun n isInt => ?_) valueW
              exact isTTL n ((same _ (by decide)).trans (isInt ▸ foundW))
            refine survives_moved foundW http fun p v sets => ?_
            obtain ⟨rfl, rfl⟩ := sets_of_scalar (isScalar_of_int valueW) sets
            refine ⟨["session_ttl"], _, .moves (.webSessionTTL valueW), sets_name.mpr ⟨_, ?_, sets_scalar rfl⟩⟩
            rw [← hours_eq fits]
            rfl
        · by_cases dst : k = "http"
          · subst dst
            exact survives_vacant vacant
          · refine survives_same .stays ?_
            rw [get_delete, if_neg isTTLKey, get_delete, if_neg isPortKey, get_delete, if_neg isHost, get_set set,
              if_neg dst]

theorem keeps24 : KeepsSettings env 24 migrateTo24 := by
  refine fun d lossless => keeps_atVersion fun e same => ?_
  refine post_then fun ⟨e₁, logObj⟩ joins => ?_
  have joined : Joined logMoves (e, some []) (e₁, logObj) := joined_joinMoves (by decide) (by decide) joins
  have plain : ∀ move ∈ logMoves, move.srcKey ≠ "schema_version" := by decide
  have vacant : (∃ move ∈ logMoves, e.get move.srcKey ≠ none) → Vacant (e.get "log") := by
    rintro ⟨move, member, present⟩
    rw [← same _ (by decide)]
    refine lossless ⟨move, member, ?_⟩
    rw [same _ (plain move member)]
    exact present
  simp only
  split
  · rename_i filled
    intro e' set k u p v found sets
    rcases joined.source found with ⟨move, member, rfl, u', boxed, moved⟩ | stayed
    · obtain ⟨v', isSame, sets'⟩ := boxed.sets move.kind.isScalar_zero sets
      exact ⟨"log", _, move.dstKey :: p, v', .moves (.log member isSame), (get_set set "log").trans (if_pos rfl),
        sets_name.mpr ⟨u', moved, sets'⟩⟩
    · have other : k ≠ "log" := by
        rintro rfl
        exact vacant (joined.len.mp filled) u p v found sets
      refine ⟨k, u, p, v, .stays _ v, ?_, sets⟩
      rw [get_set set, if_neg other]
      exact stayed
  · rename_i empty
    refine post_ok fun k u p v found sets => ?_
    rcases joined.source found with ⟨move, member, rfl, -⟩ | stayed
    · refine absurd (joined.len.mpr ⟨move, member, ?_⟩) empty
      rw [found]
      simp
    · exact ⟨k, u, p, v, .stays _ v, stayed, sets⟩

theorem keeps25 : KeepsSettings env 25 migrateTo25 := by
  refine fun d lossless => keeps_atVersion fun e same => ?_
  refine keeps_present .stays rfl fun httpObj u found value => ?_
  refine post_bind moveVal_cases ?_
  rintro ⟨e₁, pprofObj⟩ moved
  refine post_then fun http' set => post_ok fun k => ?_
  have isHTTP : e.get "http" = some (.obj httpObj) := by
    rcases readAs_obj value with ⟨-, rfl⟩ | rfl
    · cases set
    · exact found
  have others : ∀ k, k ≠ "debug_pprof" → e₁.get k = e.get k := by
    intro k other
    rcases moved with ⟨-, whole⟩ | ⟨w, w', -, -, src, -⟩
    · cases whole
      rfl
    · obtain rfl : e₁ = e.delete "debug_pprof" := src
      rw [get_delete, if_neg other]
  have now := get_update_of_obj ((others "http" (by decide)).trans isHTTP) (isSome_set http' set)
  have httpNow := (now "http").trans (if_pos rfl)
  by_cases dst : k = "http"
  · subst dst
    refine survives_moved isHTTP httpNow (keeps_obj ?_ ?_)
    · rintro rfl
      cases set
    · exact keeps_set (fun _ _ => .stays _ _) (lossless _ ((same _ (by decide)).trans isHTTP)) http' set
  · by_cases src : k = "debug_pprof"
    · subst src
      rcases moved with ⟨absent, -⟩ | ⟨w, w', foundW, boxed, -, named⟩
      · exact survives_absent absent
      · refine survives_moved foundW httpNow fun p v sets => ?_
        obtain ⟨v', isSame, sets'⟩ := boxed.sets rfl sets
        refine ⟨"pprof" :: "enabled" :: p, v', .moves (.debugPprof isSame), ?_⟩
        refine sets_name.mpr ⟨.obj pprofObj, (get_set set _).trans (if_pos rfl), sets_name.mpr ⟨w', ?_, sets'⟩⟩
        rw [get_set named, if_pos rfl]
    · refine survives_same .stays ?_
      rw [now, if_neg dst, others k src]

theorem keeps26 : KeepsSettings env 26 migrateTo26 := by
  refine fun d lossless => keeps_atVersion fun e same => ?_
  refine keeps_present .stays rfl fun dns u found value => ?_
  refine post_then fun ⟨dns', filteringObj⟩ joins => ?_
  have joined : Joined filteringMoves (dns, some []) (dns', filteringObj) :=
    joined_joinMoves (by decide) (by decide) joins
  have keptNil : dns'.isSome = dns.isSome :=
    (moved_joinMoves (fun move member => List.mem_map_of_mem member) _ joins).1.some
  have others : ∀ k, k ≠ "dns" → (e.update "dns" dns').get k = e.get k := fun k other =>
    (kept_update e dns' (List.mem_singleton_self "dns")).get (by simpa using other)
  have moves : ∀ move ∈ filteringMoves, ∀ p v v', Same move.kind.zero p v v' →
      Carries env 26 ("dns" :: move.srcKey :: p) v ("filtering" :: move.dstKey :: p) v' :=
    fun move member p v v' isSame => .moves (.filtering member isSame)
  simp only
  split
  · rename_i filled
    intro e' set k
    by_cases dst : k = "filtering"
    · subst dst
      have isDns : e.get "dns" = some (.obj dns) := by
        rcases readAs_obj value with ⟨-, rfl⟩ | rfl
        · obtain ⟨move, -, present⟩ := joined.len.mp filled
          exact absurd rfl present
        · exact found
      have vacant := lossless dns ((same _ (by decide)).trans isDns) (joined.len.mp filled)
      exact survives_vacant (same "filtering" (by decide) ▸ vacant)
    · have now : e'.get k = (e.update "dns" dns').get k := (get_set set k).trans (if_neg dst)
      by_cases src : k = "dns"
      · subst src
        exact survives_joined .stays found value joined keptNil now
          (fun _ => (get_set set "filtering").trans (if_pos rfl)) moves
      · exact survives_same .stays (now.trans (others k src))
  · rename_i empty
    refine post_ok fun k => ?_
    by_cases src : k = "dns"
    · subst src
      exact survives_joined .stays found value joined keptNil rfl
        (fun moved => absurd (joined.len.mpr moved) empty) moves
    · exact survives_same .stays (others k src)

/-- A dot in the list under a key is replaced where it is. -/
theorem keeps_replaceDot {key : String} (listed : key ∈ ["querylog", "statistics"]) :
    Post (replaceDot d key) (KeepsFields (fun p v p' v' => Carries env 27 p v p' v' ∧ p'.head? = p.head?) d) := by
  refine keeps_inObject (fun p v => ⟨.stays p v, rfl⟩) (post_ok rfl) fun fields isObj => ?_
  refine keeps_present (fun _ _ => ⟨.stays _ _, rfl⟩) rfl fun ignored u found value => ?_
  refine post_bind (keeps_changeArr (fun _ _ => ⟨.stays _ _, rfl⟩) found value ?_) fun _ kept => post_ok kept
  intro list i v foundList member
  split
  · rename_i host
    refine post_ok ?_
    split
    · rename_i isDot
      subst isDot
      intro p v sets
      obtain ⟨rfl, rfl⟩ := sets_of_scalar rfl sets
      exact ⟨[], _, ⟨.moves (.ignoredDot listed), rfl⟩, sets_scalar rfl⟩
    · exact keeps_refl (fun _ _ => ⟨.stays _ _, rfl⟩) _
  · exact post_ok (keeps_refl (fun _ _ => ⟨.stays _ _, rfl⟩) _)

theorem keeps27 : KeepsSettings env 27 migrateTo27 := by
  refine fun d lossless => keeps_atVersion fun e same => ?_
  refine post_then fun e₁ first => ?_
  intro e₂ second k u p v found sets
  have frame₁ : ∀ k, k ≠ "querylog" → e₁.get k = e.get k := fun k other =>
    (kept_inObject (List.mem_singleton_self _) e₁ first).get (by simpa using other)
  have frame₂ : ∀ k, k ≠ "statistics" → e₂.get k = e₁.get k := fun k other =>
    (kept_inObject (List.mem_singleton_self _) e₂ second).get (by simpa using other)
  by_cases isSecond : k = "statistics"
  · subst isSecond
    have found₁ := (frame₁ "statistics" (by decide)).trans found
    obtain ⟨k', u', p', v', ⟨carried, -⟩, found', sets'⟩ :=
      keeps_replaceDot (by decide) e₂ second "statistics" u p v found₁ sets
    exact ⟨k', u', p', v', carried, found', sets'⟩
  · obtain ⟨k', u', p', v', ⟨carried, here⟩, found', sets'⟩ :=
      keeps_replaceDot (by decide) e₁ first k u p v found sets
    obtain rfl : k' = k := by simpa using here
    exact ⟨k', u', p', v', carried, (frame₂ k' isSecond).trans found', sets'⟩

theorem keeps28 : KeepsSettings env 28 migrateTo28 := by
  refine fun d lossless => keeps_atVersion fun e same => ?_
  refine keeps_inObject .stays post_error fun fields isDns => ?_
  obtain ⟨vacant, isAll, isFastest⟩ := lossless _ ((same _ (by decide)).trans isDns)
  refine post_then fun dns₁ set => post_ok fun k => ?_
  have mode : ((dns₁.delete "all_servers").delete "fastest_addr").get "upstream_mode" =
      some (.upstreamMode (upstreamModeOf ((fieldOpt Bool (some fields) "all_servers").getD false)
        ((fieldOpt Bool (some fields) "fastest_addr").getD false))) := by
    rw [get_delete, if_neg (by decide), get_delete, if_neg (by decide), get_set set, if_pos rfl]
    rfl
  by_cases dst : k = "upstream_mode"
  · subst dst
    exact survives_vacant vacant
  · by_cases isAllKey : k = "all_servers"
    · subst isAllKey
      intro u p v found sets
      cases read : readAs Bool u with
      | none => exact absurd sets (isAll u found read u p v found)
      | some allServers =>
        obtain ⟨rfl, rfl⟩ := sets_of_scalar (isScalar_of_bool read) sets
        rw [fieldOpt_eq _ "all_servers", found, Option.bind_some, read] at mode
        exact ⟨"upstream_mode", _, [], _, .moves (.allServers read), mode, sets_scalar rfl⟩
    · by_cases isFastestKey : k = "fastest_addr"
      · subst isFastestKey
        intro u p v found sets
        cases read : readAs Bool u with
        | none => exact absurd sets (isFastest u found read u p v found)
        | some fastestAddr =>
          obtain ⟨rfl, rfl⟩ := sets_of_scalar (isScalar_of_bool read) sets
          rw [fieldOpt_eq _ "fastest_addr", found, Option.bind_some, read] at mode
          exact ⟨"upstream_mode", _, [], _, .moves (.fastestAddr read), mode, sets_scalar rfl⟩
      · refine survives_same (fun _ _ => .stays _ _) ?_
        rw [get_delete, if_neg isFastestKey, get_delete, if_neg isAllKey, get_set set, if_neg dst]

theorem keeps29 : KeepsSettings env 29 (migrateTo29 env) := by
  refine fun d lossless => keeps_atVersion fun e same => ?_
  refine keeps_present .stays rfl fun filters u found _ => ?_
  refine post_then fun paths _ => ?_
  refine keeps_inObject .stays post_error fun fields isFiltering => ?_
  refine keeps_set (fun _ _ => .stays _ _) (lossless ?_ _ ((same _ (by decide)).trans isFiltering))
  rw [same _ (by decide), found]
  simp

end Steps

end FirewallCore.Configmigrate
