import FirewallCore.Configmigrate.Alike
import FirewallCore.Configmigrate.Migrator

/-!
Every migration takes documents that are written alike to documents that are
written alike, if it returns for both.

Where a type is asked for and another is an error, both have the type. Where an
error is dropped, the value is under a key for plain values, so that the error is
dropped in both.
-/

namespace FirewallCore.Configmigrate

open FirewallCore.Lib

/-! ### Changes of objects -/

section Nil

variable {T : Type} [GoType T] {d : Yobj} {key srcKey dstKey : String} {v : YVal}

theorem isSome_set : Post (d.set key v) (fun new => new.isSome = d.isSome) := by
  intro new done
  cases d with
  | none => cases done
  | some fields =>
    cases done
    rfl

@[simp] theorem isSome_delete : (d.delete key).isSome = d.isSome := by
  cases d with
  | none => rfl
  | some fields => rfl

@[simp] theorem isSome_updateArr {items : Yarr} : (d.updateArr key items).isSome = d.isSome :=
  (kept_updateArr d items (List.mem_singleton_self key)).some

theorem isSome_moveVal {objs : Yobj × Yobj} :
    Post (moveVal T srcKey dstKey objs) (fun new => new.1.isSome = objs.1.isSome ∧ new.2.isSome = objs.2.isSome) :=
  post_mono (moved_moveVal (List.mem_singleton_self srcKey)) fun _ moved => ⟨moved.1.some, moved.2⟩

theorem isSome_moveWithin : Post (moveWithin T d srcKey dstKey) (fun new => new.isSome = d.isSome) := by
  unfold moveWithin
  refine post_present (post_ok rfl) fun newVal _ => ?_
  refine post_bind isSome_set fun obj same => ?_
  exact post_ok (isSome_delete.trans same)

end Nil

/-! ### Migrations of documents that are written alike -/

section Steps

variable {env : Env} {d d' : Yobj}

/-- A migration keeps documents alike. -/
def KeepsAlike (env : Env) (migrate : Yobj → Fallible Yobj) : Prop :=
  ∀ d d', AlikeObj env d d' → Both (migrate d) (migrate d') (AlikeObj env)

theorem alike1 : KeepsAlike env migrateTo1 := fun _ _ => both_atVersion fun _ _ alike => both_ok alike

theorem alike2 : KeepsAlike env migrateTo2 := fun _ _ => both_atVersion fun _ _ alike => both_moveWithin alike rfl

theorem alike3 : KeepsAlike env migrateTo3 := by
  refine fun _ _ => both_atVersion fun _ _ alike => both_inObject alike ?_ ?_
  · intro dns
    exact post_present (post_ok rfl) fun bootstrapDNS _ => isSome_set
  · intro dns dns' alikeDns
    refine both_bind (both_field alikeDns) fun found found' related => ?_
    cases related with
    | none => exact both_ok alikeDns
    | some related => exact both_set alikeDns (AlikeArr.alike (.cons related .nil))

/-- A read whose error is dropped, by cases. -/
theorem fieldOpt_cases {T : Type} [GoType T] [AlikeType T] [AlikeShape T] (key : String) (alike : AlikeObj env d d')
    (plain : isTyped key = false) :
    (fieldOpt T d key = none ∧ fieldOpt T d' key = none) ∨
      ∃ a b, fieldOpt T d key = some a ∧ fieldOpt T d' key = some b ∧ AlikeType.rel env false a b := by
  have related := rel_fieldOpt (T := T) alike plain
  generalize fieldOpt T d key = left at related
  generalize fieldOpt T d' key = right at related
  cases related with
  | none => exact .inl ⟨rfl, rfl⟩
  | some related => exact .inr ⟨_, _, rfl, rfl, related⟩

/-- An element of an array is an object in both or in neither. -/
theorem alike_item_cases {v v' : YVal} (alike : Alike env false v v') :
    (∃ c c', v = .obj c ∧ v' = .obj c' ∧ AlikeObj env c c') ∨ (∀ c, v ≠ .obj c) ∧ ∀ c, v' ≠ .obj c := by
  cases alike with
  | obj domain each => exact .inl ⟨_, _, rfl, rfl, alikeObj_of_alike (.obj domain each)⟩
  | _ => exact .inr ⟨nofun, nofun⟩

theorem alike4 : KeepsAlike env migrateTo4 := by
  refine fun _ _ => both_atVersion fun e e' alike => ?_
  rcases fieldOpt_cases (T := Yarr) "clients" alike rfl with ⟨none, none'⟩ |
    ⟨clients, clients', found, found', alikeItems⟩
  · rw [none, none']
    exact both_ok alike
  · rw [found, found']
    refine both_bind (both_changeArr alikeItems ?_) fun new new' changed => ?_
    · intro i v v' alikeVals
      rcases alike_item_cases alikeVals with ⟨c, c', rfl, rfl, alikeC⟩ | ⟨notObj, notObj'⟩
      · refine both_bind (both_set alikeC (.bool true)) fun c c' alikeC => ?_
        exact both_ok alikeC.alike
      · split
        · exact absurd rfl (notObj _)
        · exact both_ok alikeVals
    · exact both_ok (alike.updateArr (fieldOpt_eq_some found) (fieldOpt_eq_some found') changed.2.1 changed.2.2
        changed.1)

theorem alike5 : KeepsAlike env (migrateTo5 env) := by
  refine fun _ _ => both_atVersion fun e e' alike => ?_
  refine both_bind (both_moveVal ⟨alike, AlikeObj.empty⟩ rfl) ?_
  rintro ⟨conf, user⟩ ⟨conf', user'⟩ ⟨alikeConf, alikeUser⟩
  refine both_bind (both_field alikeConf) fun pass pass' related => ?_
  cases related with
  | none => exact both_ok alikeConf
  | @some text text' same =>
    obtain rfl : text = text' := same
    simp only
    cases env.generateFromPassword text with
    | error err => exact both_error_left
    | ok hash =>
      refine both_bind (both_set alikeUser (.str hash)) fun user user' alikeUser => ?_
      exact both_set (alikeConf.delete _) (AlikeArr.alike (.cons alikeUser.alike .nil))

theorem both_clientIDs {i : Nat} {c c' : Yobj} (alike : AlikeObj env c c') (ids : List String)  :
    Both (clientIDs i c ids) (clientIDs i c' ids) (List.Forall₂ (Alike env false)) := by
  induction ids with
  | nil => exact both_ok .nil
  | cons id ids ih =>
    unfold clientIDs
    cases read : fieldVal String c id with
    | error err => exact both_error_left
    | ok val =>
      cases read' : fieldVal String c' id with
      | error err => exact both_error_right
      | ok val' =>
        have same : val = val' := by
          cases both_fieldVal alike read read' with
          | none => rfl
          | some same => exact congrArg some same
        subst same
        refine both_bind ih fun later later' alikeLater => both_ok ?_
        split
        · exact alikeLater
        · exact .cons (.str _) alikeLater

theorem alike6 : KeepsAlike env migrateTo6 := by
  refine fun _ _ => both_atVersion fun e e' alike => ?_
  refine both_present alike rfl rfl fun found found' read read' alikeItems => ?_
  refine both_bind (both_changeArr alikeItems ?_) fun new new' changed => ?_
  · intro i v v' alikeVals
    rcases alike_item_cases alikeVals with ⟨c, c', rfl, rfl, alikeC⟩ | ⟨notObj, notObj'⟩
    · refine both_bind (both_clientIDs alikeC _) fun ids ids' alikeIDs => ?_
      refine both_bind (both_set alikeC (AlikeArr.alike alikeIDs)) fun c c' alikeC => ?_
      exact both_ok alikeC.alike
    · split
      · exact absurd rfl (notObj _)
      · exact both_error_left
  · exact both_ok (alike.updateArr read read' changed.2.1 changed.2.2 changed.1)

/-- The objects of two documents after a change of each. -/
def AlikeNew (env : Env) (old old' new new' : Yobj) : Prop :=
  AlikeObj env new new' ∧ new.isSome = old.isSome ∧ new'.isSome = old'.isSome

theorem both_set_new {key : String} {v v' : YVal} (alike : AlikeObj env d d') (value : Alike env (isTyped key) v v') :
    Both (d.set key v) (d'.set key v') (AlikeNew env d d') :=
  fun new new' done done' =>
    ⟨both_set alike value new new' done done', isSome_set new done, isSome_set new' done'⟩

theorem both_moveVal_new {T : Type} [GoType T] [AlikeType T] {srcKey dstKey : String} {objs objs' : Yobj × Yobj}
    (alike : AlikePair env objs objs') (same : isTyped srcKey = isTyped dstKey) :
    Both (moveVal T srcKey dstKey objs) (moveVal T srcKey dstKey objs') (fun new new' =>
      AlikeNew env objs.1 objs'.1 new.1 new'.1 ∧ AlikeNew env objs.2 objs'.2 new.2 new'.2) := by
  intro new new' done done'
  have related := both_moveVal alike same new new' done done'
  obtain ⟨src, dst⟩ := isSome_moveVal new done
  obtain ⟨src', dst'⟩ := isSome_moveVal new' done'
  exact ⟨⟨related.1, src, src'⟩, related.2, dst, dst'⟩

theorem both_joinMoves_new {objs objs' : Yobj × Yobj} {moves : List Move} (alike : AlikePair env objs objs')
    (same : ∀ move ∈ moves, isTyped move.srcKey = isTyped move.dstKey) :
    Both (joinMoves moves objs []) (joinMoves moves objs' []) (fun new new' =>
      AlikeNew env objs.1 objs'.1 new.1 new'.1 ∧ AlikeObj env new.2 new'.2) := by
  intro new new' done done'
  have related := both_joinMoves alike same new new' done done'
  have kept (objs : Yobj × Yobj) : Post (joinMoves moves objs []) (Moved (moves.map (·.srcKey)) objs) :=
    moved_joinMoves fun move member => List.mem_map_of_mem member
  exact ⟨⟨related.1, (kept objs new done).1.some, (kept objs' new' done').1.some⟩, related.2⟩

theorem alike7 : KeepsAlike env migrateTo7 := by
  refine fun _ _ => both_atVersion fun e e' alike => ?_
  rcases fieldOpt_cases (T := Yobj) "dhcp" alike rfl with ⟨none, none'⟩ |
    ⟨dhcp, dhcp', found, found', alikeDhcp⟩
  · rw [none, none']
    exact both_ok alike
  · rw [found, found']
    refine both_bind (both_joinMoves_new ⟨alikeDhcp, AlikeObj.empty⟩ (by decide)) ?_
    rintro ⟨src, dst⟩ ⟨src', dst'⟩ ⟨⟨alikeSrc, same, same'⟩, alikeDst⟩
    refine both_bind (both_set_new alikeSrc alikeDst.alike) ?_
    rintro new new' ⟨alikeNew, kept, kept'⟩
    exact both_ok (alike.update (fieldOpt_eq_some found) (fieldOpt_eq_some found') (kept.trans same)
      (kept'.trans same') alikeNew)

theorem alike8 : KeepsAlike env migrateTo8 := by
  refine fun _ _ => both_atVersion fun _ _ alike => both_inObject alike ?_ ?_
  · intro dns
    exact post_present (post_ok rfl) fun bindHost _ => post_mono isSome_set fun _ same => same.trans isSome_delete
  · intro dns dns' alikeDns
    refine both_bind (both_field alikeDns) fun found found' related => ?_
    cases related with
    | none => exact both_ok alikeDns
    | @some text text' same =>
      obtain rfl : text = text' := same
      exact both_set (alikeDns.delete _) (AlikeArr.alike (.cons (.str text) .nil))

theorem alike9 : KeepsAlike env migrateTo9 := by
  refine fun _ _ => both_atVersion fun _ _ alike => both_inObject alike ?_ ?_
  · exact fun dns => isSome_moveWithin
  · exact fun dns dns' alikeDns => both_moveWithin alikeDns rfl

theorem both_addQUICPorts {port : Nat} {ups ups' : Yarr} (alike : AlikeArr env ups ups') :
    Both (addQUICPorts env port ups) (addQUICPorts env port ups') (AlikeArr env) := by
  intro new new' done done'
  refine (both_changeArr alike ?_ new new' done done').1
  intro i v v' alikeVals
  cases alikeVals with
  | str s => exact both_ok (.str _)
  | _ => exact both_error_left

theorem both_migrateUpstreams {dns dns' : Yobj} {key : String} (alike : AlikeObj env dns dns') :
    Both (migrateUpstreams env dns key) (migrateUpstreams env dns' key) (AlikeObj env) := by
  refine both_bind (both_field alike) fun found found' related => ?_
  cases related with
  | none => exact both_ok alike
  | some alikeUps =>
    refine both_bind (both_addQUICPorts alikeUps) fun ups ups' alikeUps => ?_
    exact both_set alike alikeUps.alike

theorem isSome_migrateUpstreams {dns : Yobj} {key : String} :
    Post (migrateUpstreams env dns key) (fun new => new.isSome = dns.isSome) := by
  refine post_field fun found _ => ?_
  cases found with
  | none => exact post_ok rfl
  | some ups => exact post_bind (P := fun _ => True) (fun _ _ => trivial) fun _ _ => isSome_set

theorem alike10 : KeepsAlike env (migrateTo10 env) := by
  refine fun _ _ => both_atVersion fun _ _ alike => both_inObject alike ?_ ?_
  · intro dns
    refine post_bind isSome_migrateUpstreams fun dns₁ same => ?_
    exact post_mono isSome_migrateUpstreams fun _ same' => same'.trans same
  · intro dns dns' alikeDns
    exact both_bind (both_migrateUpstreams alikeDns) fun dns₁ dns₁' alikeDns₁ => both_migrateUpstreams alikeDns₁

/-- Values of a type that is written as it is are the same. -/
theorem eq_of_rel {α : Type} {a b : Option α} (related : Option.Rel (fun x y => x = y) a b) : a = b := by
  cases related with
  | none => rfl
  | some same => exact congrArg some same

theorem alike11 : KeepsAlike env migrateTo11 := by
  refine fun _ _ => both_atVersion fun e e' alike => ?_
  refine both_bind (both_field alike) fun rlimit rlimit' related => ?_
  obtain rfl : rlimit = rlimit' := eq_of_rel related
  refine both_set (alike.delete _) (AlikeObj.alike ?_)
  exact .cons (.str "") (.cons (.int _) (.cons (.str "") .empty))

theorem alike12 : KeepsAlike env migrateTo12 := by
  refine fun _ _ => both_atVersion fun _ _ alike => both_inObject alike ?_ ?_
  · exact fun dns => post_field fun _ _ => isSome_set
  · intro dns dns' alikeDns
    refine both_bind (both_field alikeDns) fun ivl ivl' related => ?_
    obtain rfl : ivl = ivl' := eq_of_rel related
    exact both_set alikeDns (.text rfl rfl)

theorem fieldVal_update_ne {T : Type} [GoType T] {key other : String} {inner : Yobj} (ne : other ≠ key) :
    fieldVal T (d.update key inner) other = fieldVal T d other :=
  fieldVal_congr ((kept_update d inner (List.mem_singleton_self key)).get (by simpa using ne))

theorem alike13 : KeepsAlike env migrateTo13 := by
  refine fun _ _ => both_atVersion fun e e' alike => ?_
  refine both_present alike rfl rfl fun dns dns' readDns readDns' alikeDns => ?_
  refine both_present alike rfl rfl fun dhcp dhcp' readDhcp readDhcp' alikeDhcp => ?_
  refine both_bind (both_moveVal_new ⟨alikeDns, alikeDhcp⟩ rfl) ?_
  rintro ⟨src, dst⟩ ⟨src', dst'⟩ ⟨⟨alikeSrc, same, same'⟩, alikeDst, kept, kept'⟩
  refine both_ok ((alike.update readDns readDns' same same' alikeSrc).update ?_ ?_ kept kept' alikeDst)
  · rw [fieldVal_update_ne (by decide)]
    exact readDhcp
  · rw [fieldVal_update_ne (by decide)]
    exact readDhcp'

theorem alike_clientsObject {persistent persistent' : Yarr} {runtime runtime' : Yobj} {typed : Bool}
    (alike : AlikeArr env persistent persistent') (alikeRuntime : AlikeObj env runtime runtime') :
    Alike env typed (clientsObject persistent runtime) (clientsObject persistent' runtime') :=
  AlikeObj.alike (.cons alike.alike (.cons alikeRuntime.alike .empty))

theorem alike14 : KeepsAlike env migrateTo14 := by
  refine fun _ _ => both_atVersion fun e e' alike => ?_
  refine both_bind (both_field alike) fun clients clients' related => ?_
  have alikeClients : AlikeArr env (clients.getD (some [])) (clients'.getD (some [])) := by
    cases related with
    | none => exact .nil
    | some related => exact related
  have runtime : AlikeObj env (some [("whois", .bool true), ("arp", .bool true), ("rdns", .bool false),
      ("dhcp", .bool true), ("hosts", .bool true)]) (some [("whois", .bool true), ("arp", .bool true),
      ("rdns", .bool false), ("dhcp", .bool true), ("hosts", .bool true)]) :=
    .cons (.bool _) (.cons (.bool _) (.cons (.bool _) (.cons (.bool _) (.cons (.bool _) .empty))))
  refine both_bind (both_set alike (alike_clientsObject alikeClients runtime)) fun f f' alikeF => ?_
  refine both_present alikeF rfl rfl fun dns dns' readDns readDns' alikeDns => ?_
  refine both_bind (both_moveVal_new ⟨alikeDns, runtime⟩ rfl) ?_
  rintro ⟨src, dst⟩ ⟨src', dst'⟩ ⟨⟨alikeSrc, same, same'⟩, alikeDst, -⟩
  exact both_set (alikeF.update readDns readDns' same same' alikeSrc)
    (alike_clientsObject alikeClients alikeDst)

theorem alike15 : KeepsAlike env migrateTo15 := by
  refine fun _ _ => both_atVersion fun e e' alike => ?_
  refine both_present alike rfl rfl fun dns dns' readDns readDns' alikeDns => ?_
  refine both_bind (both_joinMoves_new ⟨alikeDns, ?_⟩ (by decide)) ?_
  · exact .cons (AlikeArr.alike .nil) (.cons (.bool _) (.cons (.bool _) (.cons (.str _) (.cons (.int _) .empty))))
  · rintro ⟨src, dst⟩ ⟨src', dst'⟩ ⟨⟨alikeSrc, same, same'⟩, alikeDst⟩
    exact both_set (alike.update readDns readDns' same same' alikeSrc) alikeDst.alike

theorem fieldVal_set_ne {T : Type} [GoType T] {key other : String} {v : YVal} {new : Yobj} (done : d.set key v = .ok new)
    (ne : other ≠ key) : fieldVal T new other = fieldVal T d other :=
  fieldVal_congr (by rw [get_set done, if_neg ne])

/-- A field is set, with the other fields as they were. -/
theorem both_set_read {key : String} {v v' : YVal} (alike : AlikeObj env d d') (value : Alike env (isTyped key) v v') :
    Both (d.set key v) (d'.set key v') (fun new new' => AlikeObj env new new' ∧
      ∀ other ≠ key, fieldVal Yobj new other = fieldVal Yobj d other ∧
        fieldVal Yobj new' other = fieldVal Yobj d' other) :=
  fun new new' done done' => ⟨both_set alike value new new' done done',
    fun _ ne => ⟨fieldVal_set_ne done ne, fieldVal_set_ne done' ne⟩⟩

theorem alike16 : KeepsAlike env migrateTo16 := by
  refine fun _ _ => both_atVersion fun e e' alike => ?_
  refine both_present alike rfl rfl fun dns dns' readDns readDns' alikeDns => ?_
  have stats : AlikeObj env (some [("enabled", .bool true), ("interval", .int 1), ("ignored", .arr (some []))])
      (some [("enabled", .bool true), ("interval", .int 1), ("ignored", .arr (some []))]) :=
    .cons (.bool _) (.cons (.int _) (.cons (AlikeArr.alike .nil) .empty))
  refine both_bind (both_set_read alike stats.alike) fun f f' first => ?_
  refine both_bind (both_field alikeDns) fun ivl ivl' related => ?_
  cases related with
  | none => exact both_ok first.1
  | @some ivl ivl' same =>
    obtain rfl : ivl = ivl' := same
    have alikeStats : Both
        (if ivl = 0 then Yobj.set (some [("enabled", .bool true), ("interval", .int 1), ("ignored", .arr (some []))])
          "enabled" (.bool false) else Yobj.set (some [("enabled", .bool true), ("interval", .int 1),
            ("ignored", .arr (some []))]) "interval" (.int ivl))
        (if ivl = 0 then Yobj.set (some [("enabled", .bool true), ("interval", .int 1), ("ignored", .arr (some []))])
          "enabled" (.bool false) else Yobj.set (some [("enabled", .bool true), ("interval", .int 1),
            ("ignored", .arr (some []))]) "interval" (.int ivl)) (AlikeObj env) := by
      split
      · exact both_set stats (.bool false)
      · exact both_set stats (.int ivl)
    refine both_bind alikeStats fun new new' alikeNew => ?_
    refine both_bind (both_set_read first.1 alikeNew.alike) fun g g' second => ?_
    obtain ⟨same, same'⟩ := first.2 "dns" (by decide)
    obtain ⟨same₂, same₂'⟩ := second.2 "dns" (by decide)
    exact both_ok (second.1.update (same₂.trans (same.trans readDns)) (same₂'.trans (same'.trans readDns'))
      isSome_delete isSome_delete (alikeDns.delete _))

theorem alike17 : KeepsAlike env migrateTo17 := by
  refine fun _ _ => both_atVersion fun _ _ alike => both_inObject alike ?_ ?_
  · exact fun dns => isSome_set
  · intro dns dns' alikeDns
    have same : fieldOpt Bool dns "edns_client_subnet" = fieldOpt Bool dns' "edns_client_subnet" :=
      eq_of_rel (rel_fieldOpt (T := Bool) alikeDns rfl)
    rw [same]
    exact both_set alikeDns (AlikeObj.alike (.cons (.bool _) (.cons (.bool _) (.cons (.str _) .empty))))

theorem alike_safeSearch : AlikeObj env (some safeSearchFields) (some safeSearchFields) :=
  .cons (.bool _) (.cons (.bool _) (.cons (.bool _) (.cons (.bool _) (.cons (.bool _) (.cons (.bool _)
    (.cons (.bool _) .empty))))))

theorem alike18 : KeepsAlike env migrateTo18 := by
  refine fun _ _ => both_atVersion fun _ _ alike => both_inObject alike ?_ ?_
  · intro dns
    refine post_bind isSome_set fun dns₁ same => ?_
    refine post_bind isSome_moveVal ?_
    rintro ⟨dns₂, safeSearch⟩ ⟨same', -⟩
    exact post_mono isSome_set fun _ same'' => same''.trans (same'.trans same)
  · intro dns dns' alikeDns
    refine both_bind (both_set alikeDns (AlikeObj.alike alike_safeSearch)) fun dns₁ dns₁' alikeDns₁ => ?_
    refine both_bind (both_moveVal ⟨alikeDns₁, alike_safeSearch⟩ rfl) ?_
    rintro ⟨dns₂, safeSearch⟩ ⟨dns₂', safeSearch'⟩ ⟨alikeDns₂, alikeSafeSearch⟩
    exact both_set alikeDns₂ alikeSafeSearch.alike

/-- A move into an object that is not `nil`, whose error is only logged. -/
theorem tryMove_moveVal {T : Type} [GoType T] {srcKey dstKey : String} {src : Yobj} {fields : List (String × YVal)} :
    tryMove (moveVal T srcKey dstKey) (src, some fields) = .ok (match fieldOpt T src srcKey with
      | none => (src, some fields)
      | some a => (src.delete srcKey, some (Yobj.assign fields dstKey (GoType.box a)))) := by
  unfold tryMove moveVal field fieldOpt
  cases fieldVal T src srcKey with
  | error err => rfl
  | ok found =>
    cases found with
    | none => rfl
    | some a => rfl

theorem both_tryMove {T : Type} [GoType T] [AlikeType T] [AlikeShape T] {srcKey dstKey : String}
    {fields fields' : List (String × YVal)} {src src' : Yobj} (alike : AlikePair env (src, some fields) (src', some fields'))
    (plain : isTyped srcKey = false) (plain' : isTyped dstKey = false) :
    Both (tryMove (moveVal T srcKey dstKey) (src, some fields)) (tryMove (moveVal T srcKey dstKey) (src', some fields'))
      (AlikePair env) := by
  rw [tryMove_moveVal, tryMove_moveVal]
  rcases fieldOpt_cases (T := T) srcKey alike.1 plain with ⟨none, none'⟩ | ⟨a, b, found, found', related⟩
  · rw [none, none']
    exact both_ok alike
  · rw [found, found']
    refine both_ok ⟨alike.1.delete srcKey, ?_⟩
    rw [← plain'] at related
    exact both_set alike.2 (AlikeType.box related) _ _ rfl rfl

theorem alike19 : KeepsAlike env migrateTo19 := by
  refine fun _ _ => both_atVersion fun _ _ alike => both_inObject alike ?_ ?_
  · intro clients
    simp only
    split
    · exact post_ok rfl
    · refine post_bind (P := fun _ => True) (fun _ _ => trivial) fun new _ => ?_
      exact post_ok isSome_updateArr
  · intro clients clients' alikeClients
    rcases fieldOpt_cases (T := Yarr) "persistent" alikeClients rfl with ⟨none, none'⟩ |
      ⟨persistent, persistent', found, found', alikeItems⟩
    · rw [none, none']
      exact both_ok alikeClients
    · rw [found, found']
      refine both_bind (both_changeArr alikeItems ?_) fun new new' changed => ?_
      · intro i v v' alikeVals
        rcases alike_item_cases alikeVals with ⟨c, c', rfl, rfl, alikeC⟩ | ⟨notObj, notObj'⟩
        · refine both_bind (both_tryMove ⟨alikeC, alike_safeSearch⟩ rfl rfl) ?_
          rintro ⟨c₁, safeSearch⟩ ⟨c₁', safeSearch'⟩ ⟨alikeC₁, alikeSafeSearch⟩
          refine both_bind (both_set alikeC₁ alikeSafeSearch.alike) fun c₂ c₂' alikeC₂ => ?_
          exact both_ok alikeC₂.alike
        · split
          · exact absurd rfl (notObj _)
          · exact both_ok alikeVals
      · exact both_ok (alikeClients.updateArr (fieldOpt_eq_some found) (fieldOpt_eq_some found') changed.2.1
          changed.2.2 changed.1)

theorem alike20 : KeepsAlike env migrateTo20 := by
  refine fun _ _ => both_atVersion fun _ _ alike => both_inObject alike ?_ ?_
  · exact fun stats => post_field fun _ _ => isSome_set
  · intro stats stats' alikeStats
    refine both_bind (both_field alikeStats) fun ivl ivl' related => ?_
    obtain rfl : ivl = ivl' := eq_of_rel related
    exact both_set alikeStats (.text rfl rfl)

theorem alike_localSchedule {typed : Bool} : Alike env typed localSchedule.2 localSchedule.2 :=
  AlikeObj.alike (.cons (.str _) .empty)

theorem alike21 : KeepsAlike env migrateTo21 := by
  refine fun _ _ => both_atVersion fun _ _ alike => both_inObject alike ?_ ?_
  · intro dns
    refine post_bind isSome_moveVal ?_
    rintro ⟨dns₁, svcs⟩ ⟨same, -⟩
    exact post_mono isSome_set fun _ same' => same'.trans same
  · intro dns dns' alikeDns
    refine both_bind (both_moveVal ⟨alikeDns, .cons alike_localSchedule .empty⟩ rfl) ?_
    rintro ⟨dns₁, svcs⟩ ⟨dns₁', svcs'⟩ ⟨alikeDns₁, alikeSvcs⟩
    exact both_set alikeDns₁ alikeSvcs.alike

theorem alike22 : KeepsAlike env migrateTo22 := by
  refine fun _ _ => both_atVersion fun _ _ alike => both_inObject alike ?_ ?_
  · intro clients
    refine post_present (post_ok rfl) fun persistent _ => ?_
    refine post_bind (P := fun _ => True) (fun _ _ => trivial) fun new _ => ?_
    exact post_ok isSome_updateArr
  · intro clients clients' alikeClients
    refine both_present alikeClients rfl rfl fun found found' read read' alikeItems => ?_
    refine both_bind (both_changeArr alikeItems ?_) fun new new' changed => ?_
    · intro i v v' alikeVals
      rcases alike_item_cases alikeVals with ⟨c, c', rfl, rfl, alikeC⟩ | ⟨notObj, notObj'⟩
      · simp only
        cases readC : fieldVal Yarr c "blocked_services" with
        | error err => exact both_error_left
        | ok services =>
          cases readC' : fieldVal Yarr c' "blocked_services" with
          | error err =>
            cases services with
            | none => exact both_error_right
            | some services => exact both_error_right
          | ok services' =>
            cases both_fieldVal alikeC readC readC' with
            | none => exact both_ok alikeVals
            | some alikeServices =>
              refine both_bind (both_set alikeC ?_) fun c₁ c₁' alikeC₁ => both_ok alikeC₁.alike
              exact AlikeObj.alike (.cons (AlikeArr.alike alikeServices) (.cons alike_localSchedule .empty))
      · split
        · exact absurd rfl (notObj _)
        · exact both_error_left
    · exact both_ok (alikeClients.updateArr read read' changed.2.1 changed.2.2 changed.1)

theorem alike23 : KeepsAlike env (migrateTo23 env) := by
  refine fun _ _ => both_atVersion fun e e' alike => ?_
  refine both_bind (both_field alike) fun bindHost bindHost' related => ?_
  cases related with
  | none => exact both_ok alike
  | @some host host' same =>
    obtain rfl : host = host' := same
    simp only
    cases Net.parseAddr host with
    | none => exact both_error_left
    | some addr =>
      refine both_bind (both_field alike) fun port port' related => ?_
      obtain rfl : port = port' := eq_of_rel related
      refine both_bind (both_field alike) fun ttl ttl' related => ?_
      obtain rfl : ttl = ttl' := eq_of_rel related
      refine both_bind (both_set alike (AlikeObj.alike (.cons (.str _) (.cons (.str _) .empty)))) ?_
      exact fun f f' alikeF => both_ok (((alikeF.delete _).delete _).delete _)

theorem len_eq_zero_iff : d.len = 0 ↔ ∀ k, d.get k = none := by
  cases d with
  | none => exact iff_of_true rfl fun _ => rfl
  | some fields =>
    cases fields with
    | nil => exact iff_of_true rfl fun _ => rfl
    | cons field fields =>
      refine iff_of_false (by simp [Yobj.len]) fun all => ?_
      have head := all field.1
      simp [Yobj.get] at head

theorem AlikeObj.len_eq_zero (alike : AlikeObj env d d') : d.len = 0 ↔ d'.len = 0 := by
  rw [len_eq_zero_iff, len_eq_zero_iff]
  have same (k : String) := rel_isSome (alike k)
  constructor
  · intro all k
    have := same k
    rw [all k] at this
    exact Option.isNone_iff_eq_none.mp (Option.isSome_eq_false_iff.mp this.symm)
  · intro all k
    have := same k
    rw [all k] at this
    exact Option.isNone_iff_eq_none.mp (Option.isSome_eq_false_iff.mp this)

/-- An object is put into the document only if it has fields. -/
theorem both_set_nonempty {key : String} {obj obj' : Yobj} (alike : AlikeObj env d d') (alikeObj : AlikeObj env obj obj') :
    Both (if obj.len ≠ 0 then d.set key (.obj obj) else pure d) (if obj'.len ≠ 0 then d'.set key (.obj obj') else pure d')
      (AlikeObj env) := by
  have same := alikeObj.len_eq_zero
  by_cases empty : obj.len = 0
  · rw [if_neg (not_not.mpr empty), if_neg (not_not.mpr (same.mp empty))]
    exact both_ok alike
  · rw [if_pos empty, if_pos fun empty' => empty (same.mpr empty')]
    exact both_set alike alikeObj.alike

theorem alike24 : KeepsAlike env migrateTo24 := by
  refine fun _ _ => both_atVersion fun e e' alike => ?_
  refine both_bind (both_joinMoves ⟨alike, AlikeObj.empty⟩ (by decide)) ?_
  rintro ⟨conf, log⟩ ⟨conf', log'⟩ ⟨alikeConf, alikeLog⟩
  exact both_set_nonempty alikeConf alikeLog

theorem alike25 : KeepsAlike env migrateTo25 := by
  refine fun _ _ => both_atVersion fun e e' alike => ?_
  refine both_present alike rfl rfl fun http http' read read' alikeHttp => ?_
  have kept (conf pprof : Yobj) : Post (moveVal Bool "debug_pprof" "enabled" (conf, pprof)) (fun new =>
      fieldVal Yobj new.1 "http" = fieldVal Yobj conf "http") :=
    post_mono (moved_moveVal (List.mem_singleton_self _)) fun _ moved =>
      fieldVal_congr (moved.1.get (by decide))
  have pprof : AlikeObj env (some [("enabled", .bool false), ("port", .int 6060)])
      (some [("enabled", .bool false), ("port", .int 6060)]) :=
    .cons (.bool _) (.cons (.int _) .empty)
  refine both_bind (R := fun new new' => AlikePair env new new' ∧
    fieldVal Yobj new.1 "http" = fieldVal Yobj e "http" ∧
      fieldVal Yobj new'.1 "http" = fieldVal Yobj e' "http") ?_ ?_
  · intro new new' done done'
    have same : isTyped "debug_pprof" = isTyped "enabled" := rfl
    exact ⟨both_moveVal ⟨alike, pprof⟩ same new new' done done', kept e _ new done, kept e' _ new' done'⟩
  · rintro ⟨conf, obj⟩ ⟨conf', obj'⟩ ⟨⟨alikeConf, alikeObj⟩, same, same'⟩
    refine both_bind (both_set_new alikeHttp alikeObj.alike) ?_
    rintro new new' ⟨alikeNew, some, some'⟩
    exact both_ok (alikeConf.update (same.trans read) (same'.trans read') some some' alikeNew)

theorem alike26 : KeepsAlike env migrateTo26 := by
  refine fun _ _ => both_atVersion fun e e' alike => ?_
  refine both_present alike rfl rfl fun dns dns' readDns readDns' alikeDns => ?_
  refine both_bind (both_joinMoves_new ⟨alikeDns, AlikeObj.empty⟩ (by decide)) ?_
  rintro ⟨src, dst⟩ ⟨src', dst'⟩ ⟨⟨alikeSrc, same, same'⟩, alikeDst⟩
  exact both_set_nonempty (alike.update readDns readDns' same same' alikeSrc) alikeDst

theorem both_replaceDot {key : String} (alike : AlikeObj env d d') :
    Both (replaceDot d key) (replaceDot d' key) (AlikeObj env) := by
  refine both_inObject alike ?_ ?_
  · intro obj
    refine post_present (post_ok rfl) fun ignored _ => ?_
    refine post_bind (P := fun _ => True) (fun _ _ => trivial) fun new _ => ?_
    exact post_ok isSome_updateArr
  · intro obj obj' alikeObj
    refine both_present alikeObj rfl rfl fun found found' read read' alikeItems => ?_
    refine both_bind (both_changeArr alikeItems ?_) fun new new' changed => ?_
    · intro i v v' alikeVals
      cases alikeVals with
      | str s => exact both_ok (.str _)
      | null => exact both_ok .null
      | bool b => exact both_ok (.bool b)
      | int n => exact both_ok (.int n)
      | other type text => exact both_ok (.other type text)
      | arr length each => exact both_ok (.arr length each)
      | obj domain each => exact both_ok (.obj domain each)
    · exact both_ok (alikeObj.updateArr read read' changed.2.1 changed.2.2 changed.1)

theorem alike27 : KeepsAlike env migrateTo27 := by
  refine fun _ _ => both_atVersion fun e e' alike => ?_
  exact both_bind (both_replaceDot alike) fun f f' alikeF => both_replaceDot alikeF

theorem alike28 : KeepsAlike env migrateTo28 := by
  refine fun _ _ => both_atVersion fun _ _ alike => both_inObject alike ?_ ?_
  · intro dns
    refine post_bind isSome_set fun dns₁ same => ?_
    exact post_ok (isSome_delete.trans (isSome_delete.trans same))
  · intro dns dns' alikeDns
    have all : fieldOpt Bool dns "all_servers" = fieldOpt Bool dns' "all_servers" :=
      eq_of_rel (rel_fieldOpt (T := Bool) alikeDns rfl)
    have fastest : fieldOpt Bool dns "fastest_addr" = fieldOpt Bool dns' "fastest_addr" :=
      eq_of_rel (rel_fieldOpt (T := Bool) alikeDns rfl)
    rw [all, fastest]
    refine both_bind (both_set alikeDns (.text rfl rfl)) fun dns₁ dns₁' alikeDns₁ => ?_
    exact both_ok ((alikeDns₁.delete _).delete _)

theorem both_filterPaths {i : Nat} {filters filters' : List YVal} (alike : List.Forall₂ (Alike env false) filters filters') :
    Both (filterPaths i filters) (filterPaths i filters') Eq := by
  induction alike generalizing i with
  | nil => exact both_ok rfl
  | cons head _ ih =>
    rcases alike_item_cases head with ⟨f, f', rfl, rfl, alikeF⟩ | ⟨notObj, notObj'⟩
    · refine both_bind ih fun later later' same => ?_
      subst same
      have url : fieldOpt String f "url" = fieldOpt String f' "url" :=
        eq_of_rel (rel_fieldOpt (T := String) alikeF rfl)
      rw [url]
      cases fieldOpt String f' "url" with
      | none => exact both_ok rfl
      | some u => exact both_ok rfl
    · unfold filterPaths
      split
      · cases ‹_ :: _ = []›
      · rename_i same
        cases same
        exact absurd rfl (notObj _)
      · exact both_error_left

theorem alike29 : KeepsAlike env (migrateTo29 env) := by
  refine fun _ _ => both_atVersion fun e e' alike => ?_
  refine both_bind (both_field alike) fun filters filters' related => ?_
  cases related with
  | none => exact both_ok alike
  | some alikeItems =>
    refine both_bind (both_filterPaths alikeItems) fun paths paths' same => ?_
    subst same
    refine both_inObject alike ?_ ?_
    · exact fun fltConf => isSome_set
    · exact fun fltConf fltConf' alikeConf => both_set alikeConf (.texts rfl rfl)

/-- Every migration keeps documents alike. -/
theorem alike_upgrades : ∀ migrate ∈ upgrades env, KeepsAlike env migrate := by
  simp only [upgrades, List.forall_mem_cons]
  exact ⟨alike1, alike2, alike3, alike4, alike5, alike6, alike7, alike8, alike9, alike10, alike11, alike12, alike13,
    alike14, alike15, alike16, alike17, alike18, alike19, alike20, alike21, alike22, alike23, alike24, alike25,
    alike26, alike27, alike28, alike29, by simp⟩

/-- Whole migrations keep documents alike. -/
theorem both_runUpgrades {n : Nat} {steps : List (Yobj → Fallible Yobj)} (each : ∀ migrate ∈ steps, KeepsAlike env migrate)
    (alike : AlikeObj env d d') : Both (runUpgrades n steps d) (runUpgrades n steps d') (AlikeObj env) := by
  induction steps generalizing n d d' with
  | nil => exact both_ok alike
  | cons migrate later ih =>
    intro a b left right
    rw [List.forall_mem_cons] at each
    unfold runUpgrades at left right
    cases taken : migrate d with
    | error stop =>
      rw [taken] at left
      cases stop <;> cases left
    | ok next =>
      cases taken' : migrate d' with
      | error stop =>
        rw [taken'] at right
        cases stop <;> cases right
      | ok next' =>
        rw [taken] at left
        rw [taken'] at right
        exact ih each.2 (each.1 d d' alike next next' taken taken') a b left right

end Steps

end FirewallCore.Configmigrate
