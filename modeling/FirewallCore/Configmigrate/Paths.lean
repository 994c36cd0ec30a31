import Mathlib.Algebra.Order.Ring.Nat
import FirewallCore.Configmigrate.AlikeSteps

/-!
Migrating in one go or with a stop at a version in between, where the document
is written to the file and read back.
-/

namespace FirewallCore.Configmigrate

open FirewallCore.Lib

/-! ### Files -/

/-- A value, and what is read back after it is written. -/
inductive Written (env : Env) : YVal → YVal → Prop
  | null : Written env .null .null
  | bool (b : Bool) : Written env (.bool b) (.bool b)
  | int (n : Int) : Written env (.int n) (.int n)
  | str (s : String) : Written env (.str s) (.str s)
  | other (type text : String) : Written env (.other type text) (.other type text)
  | duration (ns : Int) : Written env (.duration ns) (.str (env.durationString ns))
  | upstreamMode (name : String) : Written env (.upstreamMode name) (.str name)
  | strings (texts : List String) : Written env (.strings texts) (.arr (some (texts.map .str)))
  | arr {items : Yarr} {items' : List YVal} (length : (items.getD []).length = items'.length)
      (each : ∀ i h h', Written env ((items.getD []).get ⟨i, h⟩) (items'.get ⟨i, h'⟩)) :
      Written env (.arr items) (.arr (some items'))
  | obj {fields : Yobj} {fields' : List (String × YVal)}
      (domain : ∀ k, (fields.get k).isSome = (Yobj.get (some fields') k).isSome)
      (each : ∀ k v v', fields.get k = some v → Yobj.get (some fields') k = some v' → Written env v v') :
      Written env (.obj fields) (.obj (some fields'))

/-- Values that were read and are the same, up to the order of fields. -/
inductive SameValue : YVal → YVal → Prop
  | null : SameValue .null .null
  | bool (b : Bool) : SameValue (.bool b) (.bool b)
  | int (n : Int) : SameValue (.int n) (.int n)
  | str (s : String) : SameValue (.str s) (.str s)
  | other (type text : String) : SameValue (.other type text) (.other type text)
  | arr {items items' : List YVal} (length : items.length = items'.length)
      (each : ∀ i h h', SameValue (items.get ⟨i, h⟩) (items'.get ⟨i, h'⟩)) :
      SameValue (.arr (some items)) (.arr (some items'))
  | obj {fields fields' : Yobj} (domain : ∀ k, (fields.get k).isSome = (fields'.get k).isSome)
      (each : ∀ k v v', fields.get k = some v → fields'.get k = some v' → SameValue v v') :
      SameValue (.obj fields) (.obj fields')

/-- What the codec writes is read back. -/
def RoundTrips {Body : Type} (codec : Codec Body) (env : Env) : Prop :=
  ∀ d body, codec.marshal d = .ok body →
    ∃ fields, codec.unmarshal body = .ok (some fields) ∧ Written env (.obj d) (.obj (some fields))

section Values

variable {env : Env} {typed : Bool} {u v w a b : YVal}

theorem written_text {text : String} (written : Written env v w) (isText : v.textOf env = some text) : w = .str text := by
  cases written with
  | str s =>
    cases isText
    rfl
  | duration ns =>
    cases isText
    rfl
  | upstreamMode name =>
    cases isText
    rfl
  | _ => cases isText

theorem written_texts {texts : List String} (written : Written env v w) (areTexts : v.textsOf = some texts) :
    w = .arr (some (texts.map .str)) := by
  cases written with
  | strings own =>
    cases areTexts
    rfl
  | @arr items items' length each =>
    have same := eq_map_str areTexts
    have sameItems : items' = texts.map .str := by
      apply List.ext_get
      · rw [← length, same]
      · intro i h h'
        have inside : i < (items.getD []).length := by
          rw [length]
          exact h
        have written := each i inside h
        have isStr : (items.getD []).get ⟨i, inside⟩ = (texts.map YVal.str).get ⟨i, h'⟩ := by
          simp only [same, List.get_eq_getElem]
        rw [isStr] at written
        simp only [List.get_eq_getElem, List.getElem_map] at written ⊢
        exact written_text written rfl
    rw [sameItems]
  | _ => cases areTexts

/-- What is read back is like what was written. -/
theorem Alike.written (alike : Alike env typed u v) (written : Written env v w) : Alike env typed u w := by
  induction alike generalizing w with
  | null =>
    cases written
    exact .null
  | bool b =>
    cases written
    exact .bool b
  | int n =>
    cases written
    exact .int n
  | str s =>
    cases written
    exact .str s
  | other type text =>
    cases written
    exact .other type text
  | arr length each ih =>
    cases written with
    | arr length' each' =>
      refine .arr (length.trans length') fun i h h' => ?_
      exact ih i h (length ▸ h) (each' i (length ▸ h) h')
  | obj domain each ih =>
    cases written with
    | obj domain' each' =>
      refine .obj (fun k => (domain k).trans (domain' k)) fun k v v'' found found'' => ?_
      have isSome := domain k
      rw [found] at isSome
      obtain ⟨v', found'⟩ := Option.isSome_iff_exists.mp isSome.symm
      exact ih k v v' found found' (each' k v' v'' found' found'')
  | text left right =>
    rw [written_text written right]
    exact .text left rfl
  | texts left right =>
    rw [written_texts written right]
    exact .texts left (mapM_strOf _)

theorem sameValue_texts (texts : List String) :
    SameValue (.arr (some (texts.map .str))) (.arr (some (texts.map .str))) := by
  refine .arr rfl fun i h h' => ?_
  simp only [List.get_eq_getElem, List.getElem_map]
  exact .str _

/-- Values that are written alike are read back as the same values. -/
theorem Alike.sameValue (alike : Alike env typed u v) (left : Written env u a) (right : Written env v b) :
    SameValue a b := by
  induction alike generalizing a b with
  | null =>
    cases left
    cases right
    exact .null
  | bool b =>
    cases left
    cases right
    exact .bool b
  | int n =>
    cases left
    cases right
    exact .int n
  | str s =>
    cases left
    cases right
    exact .str s
  | other type text =>
    cases left
    cases right
    exact .other type text
  | arr length each ih =>
    cases left with
    | arr lengthL eachL =>
      cases right with
      | arr lengthR eachR =>
        refine .arr (lengthL.symm.trans (length.trans lengthR)) fun i h h' => ?_
        exact ih i (lengthL ▸ h) (lengthR ▸ h') (eachL i (lengthL ▸ h) h) (eachR i (lengthR ▸ h') h')
  | obj domain each ih =>
    cases left with
    | obj domainL eachL =>
      cases right with
      | obj domainR eachR =>
        refine .obj (fun k => (domainL k).symm.trans ((domain k).trans (domainR k))) fun k v v' found found' => ?_
        have isSome := domainL k
        have isSome' := domainR k
        rw [found] at isSome
        rw [found'] at isSome'
        obtain ⟨x, foundX⟩ := Option.isSome_iff_exists.mp isSome
        obtain ⟨x', foundX'⟩ := Option.isSome_iff_exists.mp isSome'
        exact ih k x x' foundX foundX' (eachL k x v foundX found) (eachR k x' v' foundX' found')
  | text leftText rightText =>
    rw [written_text left leftText, written_text right rightText]
    exact .str _
  | texts leftTexts rightTexts =>
    rw [written_texts left leftTexts, written_texts right rightTexts]
    exact sameValue_texts _

/-- A value that was read is like itself. -/
theorem Decoded.alike (decoded : Decoded v) : Alike env typed v v := by
  induction decoded generalizing typed with
  | null => exact .null
  | bool b => exact .bool b
  | @int n low high => exact .int n
  | str s => exact .str s
  | @arr items each ih =>
    refine .arr rfl fun i h h' => ?_
    exact ih _ (List.get_mem _ _)
  | @obj fields each ih =>
    refine .obj (fun _ => rfl) fun k v v' found found' => ?_
    rw [found] at found'
    cases found'
    exact ih (k, v) (mem_of_lookup found)
  | other type text => exact .other type text

theorem Decoded.sameValue (decoded : Decoded v) : SameValue v v := by
  induction decoded with
  | null => exact .null
  | bool b => exact .bool b
  | @int n low high => exact .int n
  | str s => exact .str s
  | @arr items each ih =>
    refine .arr rfl fun i h h' => ?_
    exact ih _ (List.get_mem _ _)
  | @obj fields each ih =>
    refine .obj (fun _ => rfl) fun k v v' found found' => ?_
    rw [found] at found'
    cases found'
    exact ih (k, v) (mem_of_lookup found)
  | other type text => exact .other type text

end Values

/-! ### Migrations with a stop -/

section Paths

variable {Body : Type} {codec : Codec Body} {env : Env} {d d' : Yobj} {body newBody : Body} {n m t target : Nat}
  {upgraded : Bool}

/-- A migration that returns, returns for each of its parts. -/
theorem runUpgrades_append {first second : List (Yobj → Fallible Yobj)} {result : Yobj}
    (done : runUpgrades n (first ++ second) d = .ok result) :
    ∃ mid, runUpgrades n first d = .ok mid ∧ ∀ m, runUpgrades m second mid = .ok result := by
  induction first generalizing n d with
  | nil =>
    refine ⟨d, rfl, fun m => ?_⟩
    -- the versions are only told in errors
    simp only [List.nil_append] at done
    induction second generalizing n m d with
    | nil => exact done
    | cons migrate later ih =>
      unfold runUpgrades at done ⊢
      cases taken : migrate d with
      | error stop =>
        rw [taken] at done
        cases stop <;> cases done
      | ok next =>
        rw [taken] at done
        exact ih done (m + 1)
  | cons migrate first ih =>
    simp only [List.cons_append, runUpgrades] at done ⊢
    cases taken : migrate d with
    | error stop =>
      rw [taken] at done
      cases stop <;> cases done
    | ok next =>
      rw [taken] at done
      exact ih done

/-- A migration to a version goes on from one in between. -/
theorem upgradeConfigSchema_split {result mid : Yobj} (low : n ≤ t) (high : t ≤ target)
    (known : target ≤ LastSchemaVersion) (whole : upgradeConfigSchema env n target d = .ok result) (half : upgradeConfigSchema env n t d = .ok mid) :
    upgradeConfigSchema env t target mid = .ok result := by
  have split : ((upgrades env).take target).drop n =
      ((upgrades env).take t).drop n ++ ((upgrades env).take target).drop t := by
    have length : ((upgrades env).take t).length = t := by
      rw [List.length_take, length_upgrades]
      omega
    have parts : (upgrades env).take target = (upgrades env).take t ++ ((upgrades env).take target).drop t := by
      conv_lhs => rw [← List.take_append_drop t ((upgrades env).take target), List.take_take, Nat.min_eq_left high]
    conv_lhs => rw [parts]
    exact List.drop_append_of_le_length (length.symm ▸ low)
  unfold upgradeConfigSchema at whole half ⊢
  rw [split] at whole
  obtain ⟨mid', first, second⟩ := runUpgrades_append whole
  rw [half] at first
  cases first
  exact second t

theorem both_upgradeConfigSchema (alike : AlikeObj env d d') :
    Both (upgradeConfigSchema env n target d) (upgradeConfigSchema env n target d') (AlikeObj env) := by
  refine both_runUpgrades (fun migrate mem => ?_) alike
  exact alike_upgrades migrate (List.mem_of_mem_take (List.mem_of_mem_drop mem))

/-- What a migration that succeeds has done: nothing, or the migrations that are left. -/
theorem migrate_success (done : Migrate codec env body target = .returned newBody upgraded none) :
    ∃ d version, codec.unmarshal body = .ok d ∧ fieldVal Int d "schema_version" = .ok version ∧
      target ≤ LastSchemaVersion ∧ toUint (version.getD 0) ≤ target ∧
      (toUint (version.getD 0) = target ∧ newBody = body ∨
        toUint (version.getD 0) < target ∧ ∃ d', upgradeConfigSchema env (toUint (version.getD 0)) target d = .ok d' ∧
          codec.marshal d' = .ok newBody) := by
  unfold Migrate at done
  split at done
  · cases done
  · rename_i d parsed
    split at done
    · cases done
    · rename_i version read
      simp only at done
      split at done
      · cases done
      · rename_i valid
        have bounds : toUint (version.getD 0) ≤ target ∧ target ≤ LastSchemaVersion := by
          unfold validateVersion at valid
          split at valid
          · cases valid
          · split at valid
            · cases valid
            · omega
        refine ⟨d, version, parsed, read, bounds.2, bounds.1, ?_⟩
        split at done
        · rename_i same
          cases done
          exact .inl ⟨same, rfl⟩
        · rename_i other
          refine .inr ⟨lt_of_le_of_ne bounds.1 other, ?_⟩
          split at done
          · cases done
          · cases done
          · rename_i d' migrated
            split at done
            · cases done
            · rename_i written
              cases done
              exact ⟨d', migrated, written⟩

/-- A document that is migrated is not `nil`. -/
theorem migrated_some (more : n < target) (known : target ≤ LastSchemaVersion)
    (done : upgradeConfigSchema env n target d = .ok d') : ∃ fields, d = some fields := by
  cases d with
  | some fields => exact ⟨fields, rfl⟩
  | none =>
    have panics : ∀ migrate ∈ upgrades env, migrate none = .error .panic := by
      simp only [upgrades, List.forall_mem_cons]
      exact ⟨rfl, rfl, rfl, rfl, rfl, rfl, rfl, rfl, rfl, rfl, rfl, rfl, rfl, rfl, rfl, rfl, rfl, rfl, rfl, rfl, rfl,
        rfl, rfl, rfl, rfl, rfl, rfl, rfl, rfl, by simp⟩
    unfold upgradeConfigSchema at done
    cases left : ((upgrades env).take target).drop n with
    | nil => exact absurd (le_of_drop_take known left) (by omega)
    | cons migrate later =>
      obtain ⟨-, next, -⟩ := drop_take_eq_cons left
      rw [left, runUpgrades, panics migrate (List.mem_of_getElem? next)] at done
      cases done

/-- What a migration leaves is read back. -/
theorem migrate_reads (roundTrips : RoundTrips codec env)
    (done : Migrate codec env body target = .returned newBody upgraded none) :
    ∃ a, codec.unmarshal newBody = .ok a ∧ SameValue (.obj a) (.obj a) := by
  have same (a : Yobj) (parsed : codec.unmarshal newBody = .ok a) : SameValue (.obj a) (.obj a) := by
    cases a with
    | none => exact .obj (fun _ => rfl) fun k v v' found => by cases found
    | some fields => exact (Decoded.obj (codec.decoded parsed)).sameValue
  obtain ⟨d, version, parsed, -, -, -, ⟨-, rfl⟩ | ⟨-, d', -, written⟩⟩ := migrate_success done
  · exact ⟨d, parsed, same d parsed⟩
  · obtain ⟨fields, parsed', -⟩ := roundTrips d' newBody written
    exact ⟨some fields, parsed', same _ parsed'⟩

/-- The version is read back. -/
theorem version_of_written {fields : List (String × YVal)} (written : Written env (.obj d) (.obj (some fields)))
    (found : d.get "schema_version" = some (.int t)) : fieldVal Int (some fields) "schema_version" = .ok (some (t : Int)) := by
  cases written with
  | obj domain each =>
    have isSome := domain "schema_version"
    rw [found] at isSome
    obtain ⟨v, found'⟩ := Option.isSome_iff_exists.mp isSome.symm
    have isInt := each _ _ v found found'
    cases isInt
    exact fieldVal_int found'

theorem toUint_natCast (known : t ≤ LastSchemaVersion) : toUint (t : Int) = t := by
  unfold toUint
  have small : t ≤ 29 := known
  omega

end Paths

/-! ### An interval -/

/-- A file with a version and, under `dns`, the text of an interval. -/
structure IntervalFile where
  version : Nat
  interval : Option String
  deriving DecidableEq, Repr

def IntervalFile.dns (file : IntervalFile) : List (String × YVal) :=
  match file.interval with
  | none => []
  | some text => [("querylog_interval", .str text)]

def IntervalFile.fields (file : IntervalFile) : List (String × YVal) :=
  [("schema_version", .int file.version), ("dns", object file.dns)]

/-- The file of a version and of an interval as it is in memory. -/
def intervalFile (env : Env) (version : Int) (ivl : YVal) : Except String IntervalFile :=
  match version, ivl.textOf env with
  | .ofNat v, some text => if v < 2 ^ 63 then .ok ⟨v, some text⟩ else .error "yaml: version out of range"
  | _, _ => .error "yaml: unknown document"

/-- A codec for such files. -/
def intervalCodec (env : Env) : Codec IntervalFile where
  unmarshal file := if file.version < 2 ^ 63 then .ok (some file.fields) else .error "yaml: version out of range"
  marshal
    | some [("schema_version", .int v), ("dns", .obj (some [("querylog_interval", ivl)]))] => intervalFile env v ivl
    | some [("dns", .obj (some [("querylog_interval", ivl)])), ("schema_version", .int v)] => intervalFile env v ivl
    | _ => .error "yaml: unknown document"
  decoded := by
    intro file fields read
    split at read
    · rename_i small
      cases read
      simp only [IntervalFile.fields, List.forall_mem_cons]
      refine ⟨.int (by omega) (by exact_mod_cast small), .obj ?_, by simp⟩
      unfold IntervalFile.dns
      split
      · simp
      · simpa using Decoded.str _
    · cases read

section IntervalCodec

variable {env : Env} {version : Int} {ivl : YVal} {file : IntervalFile} {fields : Yobj}

theorem written_of_text {text : String} (isText : ivl.textOf env = some text) : Written env ivl (.str text) := by
  cases ivl <;> cases isText
  · exact .str text
  · exact .duration _
  · exact .upstreamMode text

theorem written_obj {read : List (String × YVal)}
    (each : ∀ k, Option.Rel (Written env) (fields.get k) (Yobj.get (some read) k)) :
    Written env (.obj fields) (.obj (some read)) := by
  refine .obj (fun k => ?_) fun k v v' found found' => ?_
  · have related := each k
    generalize fields.get k = x, Yobj.get (some read) k = y at related
    cases related <;> rfl
  · have related := each k
    rw [found, found'] at related
    cases related
    assumption

theorem intervalFile_eq (made : intervalFile env version ivl = .ok file) :
    version = file.version ∧ file.version < 2 ^ 63 ∧ ∃ text, ivl.textOf env = some text ∧ file.interval = some text := by
  unfold intervalFile at made
  split at made
  · rename_i v text isText
    split at made
    · rename_i small
      cases made
      exact ⟨rfl, small, text, isText, rfl⟩
    · cases made
  · cases made

/-- A file of an interval is read back as it is written, in either order of its fields. -/
theorem written_intervalFile (made : intervalFile env version ivl = .ok file)
    (isVersion : fields.get "schema_version" = some (.int version))
    (isDns : fields.get "dns" = some (.obj (some [("querylog_interval", ivl)])))
    (noOther : ∀ k, k ≠ "schema_version" → k ≠ "dns" → fields.get k = none) :
    ∃ read, (intervalCodec env).unmarshal file = .ok (some read) ∧ Written env (.obj fields) (.obj (some read)) := by
  obtain ⟨rfl, small, text, isText, interval⟩ := intervalFile_eq made
  have dns : Written env (.obj (some [("querylog_interval", ivl)])) (object file.dns) := by
    simp only [IntervalFile.dns, interval, object]
    apply written_obj
    intro k
    by_cases same : k = "querylog_interval"
    · rw [same]
      exact .some (written_of_text isText)
    · simp only [Yobj.get, Option.bind_some, List.lookup_cons, beq_eq_false_iff_ne.mpr same, List.lookup_nil]
      exact .none
  refine ⟨file.fields, if_pos small, written_obj fun k => ?_⟩
  by_cases sameVersion : k = "schema_version"
  · rw [sameVersion, isVersion]
    exact .some (.int _)
  · by_cases sameDns : k = "dns"
    · rw [sameDns, isDns]
      exact .some dns
    · rw [noOther k sameVersion sameDns]
      simp only [Yobj.get, IntervalFile.fields, Option.bind_some, List.lookup_cons, beq_eq_false_iff_ne.mpr sameVersion,
        beq_eq_false_iff_ne.mpr sameDns, List.lookup_nil]
      exact .none

end IntervalCodec

theorem intervalCodec_roundTrips (env : Env) : RoundTrips (intervalCodec env) env := by
  have noOther {first second : String} {v w : YVal} (k : String) (notFirst : k ≠ first) (notSecond : k ≠ second) :
      Yobj.get (some [(first, v), (second, w)]) k = none := by
    simp only [Yobj.get, Option.bind_some, List.lookup_cons, beq_eq_false_iff_ne.mpr notFirst,
      beq_eq_false_iff_ne.mpr notSecond, List.lookup_nil]
  intro d file made
  simp only [intervalCodec] at made
  split at made
  · exact written_intervalFile made rfl rfl noOther
  · exact written_intervalFile made rfl rfl fun k notVersion notDns => noOther k notDns notVersion
  · cases made

end FirewallCore.Configmigrate
