import FirewallCore.Filtering.Filter

/-!
What the calls of users and a refresh leave, in every order of their steps.

While the refresh is going on, a list can have a file that its record does not
tell of yet, because the refresh will write the record at its end (`Pending`).
The invariant `Inv` says that every other list has the file that its record
tells of.
-/

namespace FirewallCore.Filtering

open FirewallCore.Lib

section Properties

variable (crc32 : List String → UInt32)

/-- The file stored under the ID of a list is what its record says, and comes from its URL. -/
def Matches (files : Nat → Option StoredFile) (f : FilterYAML) : Prop :=
  ∃ file, files f.id = some file ∧ file.url = f.url ∧ crc32 file.rules = f.checksum ∧
    file.rules.length = f.rulesCount

/-- Enabled lists match their files, and have the names that were set during the refresh. -/
def Kept (s : State) : Prop :=
  ∀ f ∈ s.all, (f.enabled = true → Matches crc32 s.files f) ∧ ∀ name, s.named f.id = some name → f.name = name

/-- No refresh is going on, IDs are distinct, and lists that are not enabled are not loaded. -/
structure Start (s : State) : Prop where
  refreshing : s.refreshing = none
  todo : s.todo = []
  results : s.results = []
  stored : s.stored = []
  named : ∀ id, s.named id = none
  ids : (s.all.map (·.id)).Nodup
  enabled : ∀ f ∈ s.all, f.enabled = true → Matches crc32 s.files f
  disabled : ∀ f ∈ s.all, f.enabled = false → f.checksum = 0

/-- A call that keeps the record of a list and its file together. If it downloads the list of a record,
then a failure leaves no enabled list without its checksum, and rules with the checksum 0 do not come to
a record that is unloaded. -/
structure CallAllowed (flt : FilterYAML) (newList : Props) (download : Download) : Prop where
  restores : flt.url ≠ newList.url → flt.enabled = true → flt.checksum ≠ 0 → download.err = none
  replaces : (withProps flt newList).checksum = 0 →
    ∀ title rules, download = .parsed title rules none → crc32 rules ≠ 0

/-- The steps after which records and files are kept together. -/
def Allowed (s : State) : Action → Prop
  | .filterSetProperties listURL newList isAllowlist download _ =>
    ∀ flt ∈ s.array isAllowlist, flt.url = listURL → newList.enabled = true →
      shouldRestart flt newList = true → CallAllowed crc32 flt newList download
  | .startRefresh _ _ _ _ => True
  -- a file is replaced only if the enabled list with its ID still has the URL
  | .refreshNext download _ =>
    ∀ uf, s.todo.head? = some uf → ∀ title rules, download = .parsed title rules none →
      crc32 rules ≠ uf.checksum → ∀ f ∈ s.all, f.id = uf.id → f.enabled = true → f.url = uf.url
  -- a record is written only if no call has replaced the file or set another name since
  | .finishRefresh =>
    allFailed s.results = false → ∀ u ∈ s.results, u.updated = true →
      ∀ f ∈ s.all, f.id = u.flt.id → f.url = u.flt.url →
        f.id ∈ s.stored ∧ ∀ name, s.named f.id = some name → name = u.flt.name

/-- The refresh will write the record of a list. -/
def Pending (s : State) (f : FilterYAML) : Prop :=
  f.id ∈ s.stored ∧ ∃ u ∈ s.results, u.updated = true ∧ u.flt.id = f.id ∧ u.flt.url = f.url

structure Inv (s : State) : Prop where
  ids : (s.all.map (·.id)).Nodup
  copies : (s.results.map (·.flt.id) ++ s.todo.map (·.id)).Nodup
  own : ∀ white, s.refreshing = some white →
    ∀ id ∈ s.results.map (·.flt.id) ++ s.todo.map (·.id), id ∈ (s.array white).map (·.id)
  idle : s.refreshing = none → s.todo = [] ∧ s.results = []
  tracked : ∀ f ∈ s.all, f.enabled = true ∨ f.checksum ≠ 0 → Matches crc32 s.files f ∨ Pending s f
  unloaded : ∀ f ∈ s.all, f.enabled = false → f.id ∈ s.todo.map (·.id) → f.checksum = 0
  stored : ∀ id ∈ s.stored, ∃ u ∈ s.results, u.flt.id = id ∧ u.err = none ∧ Matches crc32 s.files u.flt
  named : ∀ f ∈ s.all, ∀ name, s.named f.id = some name → f.name = name

end Properties

variable {crc32 : List String → UInt32}

/-! ### Updates -/

/-- An update leaves the file as it is, or replaces it. -/
theorem update_cases (crc32 : List String → UInt32) (flt : FilterYAML) (download : Download) (now : Nat) :
    ((update crc32 flt download now).file = none ∧
      (update crc32 flt download now).flt = { flt with lastUpdated := now } ∧
      ((update crc32 flt download now).err = none →
        ∃ title rules, download = .parsed title rules none ∧ crc32 rules = flt.checksum)) ∨
    ∃ title rules, download = .parsed title rules none ∧ crc32 rules ≠ flt.checksum ∧
      update crc32 flt download now =
        ⟨{ flt with lastUpdated := now, name := flt.ensureName title, checksum := crc32 rules, rulesCount := rules.length },
          true, none, some ⟨flt.url, rules⟩⟩ := by
  cases download with
  | failed err => exact .inl ⟨rfl, rfl, fun succeeded => by cases succeeded⟩
  | parsed title rules closed =>
    by_cases same : crc32 rules = flt.checksum
    · have left : update crc32 flt (.parsed title rules closed) now =
          ⟨{ flt with lastUpdated := now }, false, closed, none⟩ := by
        simp only [update, updateIntl, if_pos same]
      rw [left]
      exact .inl ⟨rfl, rfl, fun succeeded => ⟨title, rules, by rw [show closed = none from succeeded], same⟩⟩
    · cases closed with
      | some err =>
        have left : update crc32 flt (.parsed title rules (some err)) now =
            ⟨{ flt with lastUpdated := now }, true, some ("finalizing update: " ++ err), none⟩ := by
          simp only [update, updateIntl, if_neg same]
        rw [left]
        exact .inl ⟨rfl, rfl, fun succeeded => by cases succeeded⟩
      | none =>
        right
        refine ⟨title, rules, rfl, same, ?_⟩
        simp only [update, updateIntl, if_neg same]

theorem update_err (crc32 : List String → UInt32) (flt : FilterYAML) (download : Download) (now : Nat) :
    (update crc32 flt download now).err.isSome = download.err.isSome := by
  cases download with
  | failed err => rfl
  | parsed title rules closed =>
    simp only [update, updateIntl, Download.err]
    split
    · rfl
    · cases closed with
      | none => rfl
      | some err => rfl

theorem update_flt_id (crc32 : List String → UInt32) (flt : FilterYAML) (download : Download) (now : Nat) :
    (update crc32 flt download now).flt.id = flt.id ∧ (update crc32 flt download now).flt.url = flt.url := by
  rcases update_cases crc32 flt download now with ⟨-, same, -⟩ | ⟨title, rules, -, -, same⟩
  · rw [same]
    exact ⟨rfl, rfl⟩
  · rw [same]
    exact ⟨rfl, rfl⟩

/-! ### Calls -/

/-- What a call can make of a record and its file. -/
inductive Effect (crc32 : List String → UInt32) (flt : FilterYAML) : FilterYAML → Option StoredFile → Prop
  | keeps {flt' : FilterYAML} (id : flt'.id = flt.id) (url : flt'.url = flt.url)
      (checksum : flt'.checksum = flt.checksum) (rulesCount : flt'.rulesCount = flt.rulesCount)
      (loaded : flt'.enabled = true → flt.enabled = true ∨ flt.checksum ≠ 0)
      (disabled : flt'.enabled = false → flt.enabled = false) : Effect crc32 flt flt' none
  | unloads {flt' : FilterYAML} (id : flt'.id = flt.id) (disabled : flt'.enabled = false)
      (checksum : flt'.checksum = 0) : Effect crc32 flt flt' none
  | replaces {flt' : FilterYAML} {rules : List String} (id : flt'.id = flt.id) (enabled : flt'.enabled = true)
      (checksum : crc32 rules = flt'.checksum) (rulesCount : rules.length = flt'.rulesCount) :
      Effect crc32 flt flt' (some ⟨flt'.url, rules⟩)

theorem Effect.id_eq {flt flt' : FilterYAML} {file : Option StoredFile} (effect : Effect crc32 flt flt' file) :
    flt'.id = flt.id := by
  cases effect with
  | keeps id => exact id
  | unloads id => exact id
  | replaces id => exact id

section Call

variable {flt : FilterYAML} {newList : Props} {download : Download} {now : Nat} {isTaken : Bool}

theorem withProps_id : (withProps flt newList).id = flt.id := by
  unfold withProps
  simp only
  split
  · rfl
  · rfl

theorem withProps_of_same (same : flt.url = newList.url) :
    withProps flt newList = { flt with name := newList.name, enabled := newList.enabled } := by
  unfold withProps
  simp only
  rw [if_neg (not_not.mpr same)]

theorem withProps_checksum (changed : flt.url ≠ newList.url) : (withProps flt newList).checksum = 0 := by
  unfold withProps
  simp only
  rw [if_pos changed]
  rfl

/-- A call that fails to download keeps the record, or leaves it unloaded. -/
theorem restore_effect (allowed : CallAllowed crc32 flt newList download) (failed : download.err ≠ none) :
    Effect crc32 flt (restore flt { withProps flt newList with lastUpdated := now }) none := by
  by_cases same : flt.url = newList.url
  · rw [withProps_of_same same]
    exact .keeps rfl rfl rfl rfl (fun enabled => .inl enabled) fun disabled => disabled
  · have checksum := withProps_checksum same
    cases enabled : flt.enabled with
    | false => exact .unloads withProps_id enabled checksum
    | true =>
      have zero : flt.checksum = 0 := by
        by_contra loaded
        exact failed (allowed.restores same enabled loaded)
      exact .keeps withProps_id rfl (checksum.trans zero.symm) rfl (fun _ => .inl enabled) fun disabled => disabled

/-- A call that downloads rules of the checksum that the record has keeps the record. -/
theorem unchanged_effect (allowed : CallAllowed crc32 flt newList download) {title : String} {rules : List String}
    (parsed : download = .parsed title rules none) (same : crc32 rules = (withProps flt newList).checksum)
    (enabled : newList.enabled = true) :
    Effect crc32 flt { withProps flt newList with lastUpdated := now } none := by
  have loaded : (withProps flt newList).checksum ≠ 0 := by
    intro zero
    exact allowed.replaces zero title rules parsed (same.trans zero)
  have sameURL : flt.url = newList.url := by
    by_contra changed
    exact loaded (withProps_checksum changed)
  rw [withProps_of_same sameURL] at loaded ⊢
  refine .keeps rfl rfl rfl rfl (fun _ => .inr loaded) fun disabled => ?_
  exact absurd (enabled.symm.trans disabled) (by decide)

theorem setRecord_effect
    (allowed : newList.enabled = true → shouldRestart flt newList = true → CallAllowed crc32 flt newList download) :
    Effect crc32 flt (setRecord crc32 isTaken flt newList download now).1
      (setRecord crc32 isTaken flt newList download now).2.1 := by
  unfold setRecord
  split
  · exact .keeps rfl rfl rfl rfl (fun enabled => .inl enabled) fun disabled => disabled
  · simp only
    split
    · rename_i enabled
      split
      · rename_i restarts
        have allowed := allowed enabled restarts
        rcases update_cases crc32 (withProps flt newList) download now with
          ⟨noFile, same, unchanged⟩ | ⟨title, rules, -, -, replaced⟩
        · split
          · rename_i err failed
            rw [noFile, same]
            apply restore_effect allowed
            intro succeeded
            have agree := update_err crc32 (withProps flt newList) download now
            rw [failed, succeeded] at agree
            cases agree
          · rename_i succeeded
            obtain ⟨title, rules, parsed, checksum⟩ := unchanged succeeded
            rw [noFile, same]
            exact unchanged_effect allowed parsed checksum enabled
        · rw [replaced]
          exact .replaces withProps_id enabled rfl rfl
      · rename_i still
        have same : flt.url = newList.url ∧ flt.enabled = newList.enabled := by
          unfold shouldRestart at still
          simpa using still
        rw [withProps_of_same same.1]
        refine .keeps rfl rfl rfl rfl (fun _ => .inl (same.2.trans enabled)) fun disabled => ?_
        exact same.2.trans disabled
    · rename_i disabled
      exact .unloads withProps_id (Bool.eq_false_iff.mpr disabled) rfl

/-- A call that returns an error leaves the name. -/
theorem setRecord_name_of_error {err : String}
    (failed : (setRecord crc32 isTaken flt newList download now).2.2 = .error err) :
    (setRecord crc32 isTaken flt newList download now).1.name = flt.name := by
  unfold setRecord at failed ⊢
  split
  · rfl
  · rename_i free
    rw [if_neg free] at failed
    simp only at failed ⊢
    split
    · rename_i enabled
      rw [if_pos enabled] at failed
      split
      · rename_i restarts
        rw [if_pos restarts] at failed
        split
        · rfl
        · rename_i succeeded
          rw [succeeded] at failed
          cases failed
      · rename_i still
        rw [if_neg still] at failed
        cases failed
    · rename_i disabled
      rw [if_neg disabled] at failed
      cases failed

end Call

/-! ### Records and files -/

theorem Matches.congr {files files' : Nat → Option StoredFile} {f f' : FilterYAML} (matched : Matches crc32 files f)
    (stored : files' f'.id = files f.id) (url : f'.url = f.url) (checksum : f'.checksum = f.checksum)
    (rulesCount : f'.rulesCount = f.rulesCount) : Matches crc32 files' f' := by
  obtain ⟨file, found, fromURL, sum, count⟩ := matched
  exact ⟨file, stored.trans found, fromURL.trans url.symm, sum.trans checksum.symm, count.trans rulesCount.symm⟩

section Files

variable {s : State} {id other : Nat} {file : Option StoredFile}

theorem putFile_of_ne (ne : other ≠ id) : s.putFile id file other = s.files other := by
  cases file with
  | none => rfl
  | some file => exact if_neg ne

theorem putFile_self {file : StoredFile} : s.putFile id (some file) id = some file := if_pos rfl

end Files

/-- With distinct IDs, an entry that is replaced is the only one with its ID. -/
theorem mem_set_of_nodup {l : List FilterYAML} {i : Nat} {flt flt' f : FilterYAML} (ids : (l.map (·.id)).Nodup)
    (found : l[i]? = some flt) (mem : f ∈ l.set i flt') : f = flt' ∨ f ∈ l ∧ f.id ≠ flt.id := by
  obtain ⟨j, at'⟩ := List.mem_iff_getElem?.mp mem
  rw [List.getElem?_set] at at'
  split at at'
  · rename_i same
    split at at'
    · exact .inl (Option.some.inj at').symm
    · cases at'
  · rename_i ne
    refine .inr ⟨List.mem_of_getElem? at', fun sameID => ne ?_⟩
    have first : (l.map (·.id))[i]? = some flt.id := by rw [List.getElem?_map, found]; rfl
    have second : (l.map (·.id))[j]? = some flt.id := by rw [List.getElem?_map, at', ← sameID]; rfl
    exact (List.getElem?_inj (List.getElem?_eq_some_iff.mp first).1 ids).mp (first.trans second.symm)

theorem map_id_set {l : List FilterYAML} {i : Nat} {flt flt' : FilterYAML} (found : l[i]? = some flt)
    (sameID : flt'.id = flt.id) : (l.set i flt').map (·.id) = l.map (·.id) := by
  apply List.ext_getElem?
  intro j
  rw [List.getElem?_map, List.getElem?_map, List.getElem?_set]
  by_cases same : i = j
  · subst same
    have bound := (List.getElem?_eq_some_iff.mp found).1
    rw [if_pos rfl, if_pos bound, found]
    exact congrArg some sameID
  · rw [if_neg same]

namespace State

variable {s : State} {white : Bool} {l : List FilterYAML}

theorem array_sub {f : FilterYAML} (mem : f ∈ s.array white) : f ∈ s.all := by
  cases white with
  | false => exact List.mem_append_left _ mem
  | true => exact List.mem_append_right _ mem

/-- An entry of an array is one of all records. -/
theorem all_getElem? {i : Nat} {flt : FilterYAML} (found : (s.array white)[i]? = some flt) :
    ∃ j : Nat, s.all[j]? = some flt ∧
      ∀ flt', (s.setArray white ((s.array white).set i flt')).all = s.all.set j flt' := by
  have bound := (List.getElem?_eq_some_iff.mp found).1
  cases white with
  | false =>
    refine ⟨i, ?_, fun flt' => ?_⟩
    · exact (List.getElem?_append_left bound).trans found
    · exact (List.set_append_left _ _ bound).symm
  | true =>
    refine ⟨s.filters.length + i, ?_, fun flt' => ?_⟩
    · unfold all
      rw [List.getElem?_append_right (Nat.le_add_right _ _), Nat.add_sub_cancel_left]
      exact found
    · unfold all
      rw [List.set_append_right _ _ (Nat.le_add_right _ _), Nat.add_sub_cancel_left]
      rfl

/-- A record after an array is set is one of the array or one of the other. -/
theorem mem_all_setArray {f : FilterYAML} (mem : f ∈ (s.setArray white l).all) :
    f ∈ l ∨ f ∈ s.array (!white) := by
  cases white with
  | false => exact List.mem_append.mp mem
  | true => exact (List.mem_append.mp mem).symm

theorem array_setArray (s : State) (white : Bool) (l : List FilterYAML) : (s.setArray white l).array white = l ∧
    (s.setArray white l).array (!white) = s.array (!white) := by
  cases white with
  | false => exact ⟨rfl, rfl⟩
  | true => exact ⟨rfl, rfl⟩

/-- The IDs stay if those of an array do. -/
theorem setArray_ids (same : l.map (·.id) = (s.array white).map (·.id)) (other : Bool) :
    ((s.setArray white l).array other).map (·.id) = (s.array other).map (·.id) := by
  obtain ⟨own, rest⟩ := array_setArray s white l
  by_cases this : other = white
  · rw [this, own, same]
  · rw [Bool.eq_not_of_ne this, rest]

theorem all_ids : s.all.map (·.id) = (s.array false).map (·.id) ++ (s.array true).map (·.id) := List.map_append

end State

/-! ### Steps of users -/

/-- One record is changed, and its file with it. -/
structure Changed (crc32 : List String → UInt32) (s s' : State) (flt flt' : FilterYAML) (file : Option StoredFile) :
    Prop where
  effect : Effect crc32 flt flt' file
  all : ∃ j : Nat, s.all[j]? = some flt ∧ s'.all = s.all.set j flt'
  ids : ∀ white, (s'.array white).map (·.id) = (s.array white).map (·.id)
  files : s'.files = s.putFile flt.id file
  refreshing : s'.refreshing = s.refreshing
  todo : s'.todo = s.todo
  results : s'.results = s.results
  stored : s'.stored = if file.isSome then s.stored.filter (· ≠ flt.id) else s.stored
  named : s'.named = s.named ∧ flt'.name = flt.name ∨
    s'.named = fun id => if id = flt.id then some flt'.name else s.named id

namespace Changed

variable {s s' : State} {flt flt' f : FilterYAML} {file : Option StoredFile} {id : Nat}

theorem mem_all (changed : Changed crc32 s s' flt flt' file) (inv : Inv crc32 s) (mem : f ∈ s'.all) :
    f = flt' ∨ f ∈ s.all ∧ f.id ≠ flt.id := by
  obtain ⟨j, found, set⟩ := changed.all
  rw [set] at mem
  exact mem_set_of_nodup inv.ids found mem

theorem was (changed : Changed crc32 s s' flt flt' file) : flt ∈ s.all := by
  obtain ⟨j, found, -⟩ := changed.all
  exact List.mem_of_getElem? found

theorem files_of_ne (changed : Changed crc32 s s' flt flt' file) (ne : id ≠ flt.id) : s'.files id = s.files id := by
  rw [changed.files]
  exact putFile_of_ne ne

theorem mem_stored_of_ne (changed : Changed crc32 s s' flt flt' file) (ne : id ≠ flt.id) (mem : id ∈ s.stored) :
    id ∈ s'.stored := by
  rw [changed.stored]
  split
  · exact List.mem_filter.mpr ⟨mem, decide_eq_true ne⟩
  · exact mem

/-- The files that the refresh put there are as they were. -/
theorem of_mem_stored (changed : Changed crc32 s s' flt flt' file) (mem : id ∈ s'.stored) :
    id ∈ s.stored ∧ s'.files id = s.files id := by
  rw [changed.stored] at mem
  cases file with
  | none => exact ⟨mem, congrFun changed.files id⟩
  | some file =>
    obtain ⟨mem, ne⟩ := List.mem_filter.mp mem
    exact ⟨mem, changed.files_of_ne (of_decide_eq_true ne)⟩

theorem pending_of_ne (changed : Changed crc32 s s' flt flt' file) (ne : f.id ≠ flt.id) (pending : Pending s f) :
    Pending s' f := by
  obtain ⟨stored, result⟩ := pending
  refine ⟨changed.mem_stored_of_ne ne stored, ?_⟩
  rw [changed.results]
  exact result

/-- The changed record matches its file, or will be written. -/
theorem tracked (changed : Changed crc32 s s' flt flt' file) (inv : Inv crc32 s)
    (loaded : flt'.enabled = true ∨ flt'.checksum ≠ 0) : Matches crc32 s'.files flt' ∨ Pending s' flt' := by
  have files := changed.files
  have stored := changed.stored
  cases changed.effect with
  | keeps id url checksum rulesCount wasLoaded disabled =>
    have before : flt.enabled = true ∨ flt.checksum ≠ 0 := by
      rcases loaded with enabled | nonzero
      · exact wasLoaded enabled
      · exact .inr (checksum ▸ nonzero)
    rcases inv.tracked flt changed.was before with matched | ⟨isStored, u, mem, updated, sameID, sameURL⟩
    · left
      refine matched.congr ?_ url checksum rulesCount
      rw [files, id]
      rfl
    · right
      refine ⟨?_, u, ?_, updated, sameID.trans id.symm, sameURL.trans url.symm⟩
      · rw [stored, id]
        exact isStored
      · rw [changed.results]
        exact mem
  | unloads id disabled checksum =>
    rcases loaded with enabled | nonzero
    · exact absurd (disabled.symm.trans enabled) (by decide)
    · exact absurd checksum nonzero
  | replaces id enabled checksum rulesCount =>
    rename_i rules
    refine .inl ⟨⟨flt'.url, rules⟩, ?_, rfl, checksum, rulesCount⟩
    rw [files, id]
    exact putFile_self

theorem unloaded (changed : Changed crc32 s s' flt flt' file) (inv : Inv crc32 s) (disabled : flt'.enabled = false)
    (copied : flt'.id ∈ s.todo.map (·.id)) : flt'.checksum = 0 := by
  cases changed.effect with
  | keeps id url checksum rulesCount wasLoaded wasDisabled =>
    rw [checksum]
    exact inv.unloaded flt changed.was (wasDisabled disabled) (id ▸ copied)
  | unloads id disabled checksum => exact checksum
  | replaces id enabled => exact absurd (disabled.symm.trans enabled) (by decide)

theorem inv (changed : Changed crc32 s s' flt flt' file) (inv : Inv crc32 s) : Inv crc32 s' where
  ids := by
    obtain ⟨j, found, set⟩ := changed.all
    rw [set, map_id_set found changed.effect.id_eq]
    exact inv.ids
  copies := by
    rw [changed.results, changed.todo]
    exact inv.copies
  own := by
    intro white
    rw [changed.refreshing, changed.results, changed.todo, changed.ids]
    exact inv.own white
  idle := by
    rw [changed.refreshing, changed.results, changed.todo]
    exact inv.idle
  tracked := by
    intro f mem loaded
    rcases changed.mem_all inv mem with rfl | ⟨mem, ne⟩
    · exact changed.tracked inv loaded
    · rcases inv.tracked f mem loaded with matched | pending
      · exact .inl (matched.congr (changed.files_of_ne ne) rfl rfl rfl)
      · exact .inr (changed.pending_of_ne ne pending)
  unloaded := by
    intro f mem disabled copied
    rw [changed.todo] at copied
    rcases changed.mem_all inv mem with rfl | ⟨mem, -⟩
    · exact changed.unloaded inv disabled copied
    · exact inv.unloaded f mem disabled copied
  stored := by
    intro id mem
    obtain ⟨wasStored, sameFile⟩ := changed.of_mem_stored mem
    obtain ⟨u, result, sameID, succeeded, matched⟩ := inv.stored id wasStored
    rw [changed.results]
    refine ⟨u, result, sameID, succeeded, matched.congr ?_ rfl rfl rfl⟩
    rw [sameID]
    exact sameFile
  named := by
    intro f mem name isNamed
    rcases changed.named with ⟨same, sameName⟩ | named
    · rw [same] at isNamed
      rcases changed.mem_all inv mem with rfl | ⟨mem, -⟩
      · rw [changed.effect.id_eq] at isNamed
        exact sameName.trans (inv.named flt changed.was name isNamed)
      · exact inv.named f mem name isNamed
    · rw [named] at isNamed
      rcases changed.mem_all inv mem with rfl | ⟨mem, ne⟩
      · rw [changed.effect.id_eq] at isNamed
        simp only [if_true] at isNamed
        exact Option.some.inj isNamed
      · simp only [if_neg ne] at isNamed
        exact inv.named f mem name isNamed

end Changed

namespace State

variable {s : State} {white : Bool} {l : List FilterYAML}

@[simp] theorem setArray_files : (s.setArray white l).files = s.files := by cases white <;> rfl
@[simp] theorem setArray_refreshing : (s.setArray white l).refreshing = s.refreshing := by cases white <;> rfl
@[simp] theorem setArray_todo : (s.setArray white l).todo = s.todo := by cases white <;> rfl
@[simp] theorem setArray_results : (s.setArray white l).results = s.results := by cases white <;> rfl
@[simp] theorem setArray_named : (s.setArray white l).named = s.named := by cases white <;> rfl

end State

/-- A call changes the record that it finds. -/
theorem callAt_changed {s : State} {white : Bool} {i : Nat} {flt : FilterYAML} {newList : Props} {download : Download}
    {now : Nat} (found : (s.array white)[i]? = some flt)
    (allowed : newList.enabled = true → shouldRestart flt newList = true → CallAllowed crc32 flt newList download) :
    Changed crc32 s (callAt crc32 s white i flt newList download now).1 flt
      (setRecord crc32 (s.filterExists newList.url) flt newList download now).1
      (setRecord crc32 (s.filterExists newList.url) flt newList download now).2.1 where
  effect := setRecord_effect allowed
  all := by
    obtain ⟨j, inAll, setAll⟩ := State.all_getElem? found
    exact ⟨j, inAll, setAll _⟩
  ids := State.setArray_ids (map_id_set found (setRecord_effect allowed).id_eq)
  files := rfl
  refreshing := State.setArray_refreshing
  todo := State.setArray_todo
  results := State.setArray_results
  stored := rfl
  named := by
    cases res : (setRecord crc32 (s.filterExists newList.url) flt newList download now).2.2 with
    | error err =>
      refine .inl ⟨?_, setRecord_name_of_error res⟩
      simp only [callAt, res]
    | ok restart =>
      right
      simp only [callAt, res]

/-! ### Steps of the refresh -/

section Refresh

variable {s : State} {white : Bool}

theorem Start.inv (start : Start crc32 s) : Inv crc32 s where
  ids := start.ids
  copies := by
    rw [start.results, start.todo]
    exact List.nodup_nil
  own := by
    intro white refreshing
    rw [start.refreshing] at refreshing
    cases refreshing
  idle := fun _ => ⟨start.todo, start.results⟩
  tracked := by
    intro f mem loaded
    cases enabled : f.enabled with
    | true => exact .inl (start.enabled f mem enabled)
    | false =>
      rcases loaded with isEnabled | nonzero
      · exact absurd (enabled.symm.trans isEnabled) (by decide)
      · exact absurd (start.disabled f mem enabled) nonzero
  unloaded := fun f mem disabled _ => start.disabled f mem disabled
  stored := by
    intro id mem
    rw [start.stored] at mem
    cases mem
  named := by
    intro f mem name isNamed
    rw [start.named] at isNamed
    cases isNamed

/-- When no refresh is going on, every record matches its file. -/
theorem Inv.matches_of_idle (inv : Inv crc32 s) (idle : s.refreshing = none) {f : FilterYAML} (mem : f ∈ s.all)
    (loaded : f.enabled = true ∨ f.checksum ≠ 0) : Matches crc32 s.files f := by
  rcases inv.tracked f mem loaded with matched | ⟨-, u, result, -⟩
  · exact matched
  · rw [(inv.idle idle).2] at result
    cases result

theorem array_ids_nodup (inv : Inv crc32 s) : ((s.array white).map (·.id)).Nodup := by
  have ids := inv.ids
  rw [State.all_ids] at ids
  cases white with
  | false => exact (List.nodup_append.mp ids).1
  | true => exact (List.nodup_append.mp ids).2.1

theorem array_disjoint (inv : Inv crc32 s) {id : Nat} (mem : id ∈ (s.array white).map (·.id))
    (other : id ∈ (s.array (!white)).map (·.id)) : False := by
  have ids := inv.ids
  rw [State.all_ids] at ids
  cases white with
  | false => exact (List.nodup_append.mp ids).2.2 id mem id other rfl
  | true => exact (List.nodup_append.mp ids).2.2 id other id mem rfl

theorem mem_listsToUpdate {filters : List FilterYAML} {force : Bool} {interval now id : Nat}
    (mem : id ∈ (listsToUpdate filters force interval now).map (·.id)) :
    ∃ f ∈ filters, f.id = id ∧ f.enabled = true := by
  obtain ⟨copy, listed, rfl⟩ := List.mem_map.mp mem
  obtain ⟨f, due, rfl⟩ := List.mem_map.mp listed
  obtain ⟨isRecord, isDue⟩ := List.mem_filter.mp due
  exact ⟨f, isRecord, rfl, (of_decide_eq_true isDue).1⟩

theorem listsToUpdate_ids_nodup {filters : List FilterYAML} {force : Bool} {interval now : Nat}
    (ids : (filters.map (·.id)).Nodup) : ((listsToUpdate filters force interval now).map (·.id)).Nodup := by
  unfold listsToUpdate
  rw [List.map_map]
  exact (ids.sublist (List.filter_sublist.map _))

/-- Records with one ID are the same record. -/
theorem Inv.eq_of_id (inv : Inv crc32 s) {f f' : FilterYAML} (mem : f ∈ s.all) (mem' : f' ∈ s.all)
    (same : f.id = f'.id) : f = f' :=
  List.inj_on_of_nodup_map inv.ids mem mem' same

/-- The copies are made. -/
theorem Inv.started (inv : Inv crc32 s) (idle : s.refreshing = none) {force : Bool} {interval now : Nat} :
    Inv crc32 { s with
      named := fun _ => none
      refreshing := some white
      todo := listsToUpdate (s.array white) force interval now
      results := []
      stored := [] } where
  ids := inv.ids
  copies := listsToUpdate_ids_nodup (array_ids_nodup inv)
  own := by
    intro white' refreshing id mem
    cases refreshing
    obtain ⟨f, isRecord, rfl, -⟩ := mem_listsToUpdate mem
    exact List.mem_map_of_mem isRecord
  idle := fun none => by cases none
  tracked := fun f mem loaded => .inl (inv.matches_of_idle idle mem loaded)
  unloaded := by
    intro f mem disabled copied
    obtain ⟨f', mem', sameID, enabled⟩ := mem_listsToUpdate copied
    have same := inv.eq_of_id (State.array_sub mem') mem sameID
    rw [same] at enabled
    exact absurd (disabled.symm.trans enabled) (by decide)
  stored := fun id mem => by cases mem
  named := fun f mem name isNamed => by cases isNamed

/-- One list is updated. -/
theorem Inv.next (inv : Inv crc32 s) {uf : FilterYAML} {todo : List FilterYAML} {download : Download} {now : Nat}
    (head : s.todo = uf :: todo) (going : s.refreshing = some white)
    (allowed : ∀ title rules, download = .parsed title rules none → crc32 rules ≠ uf.checksum →
      ∀ f ∈ s.all, f.id = uf.id → f.enabled = true → f.url = uf.url) :
    Inv crc32 { s with
      todo := todo
      results := s.results ++ [update crc32 uf download now]
      files := s.putFile uf.id (update crc32 uf download now).file
      stored := if (update crc32 uf download now).file.isSome then uf.id :: s.stored else s.stored } := by
  have cases := update_cases crc32 uf download now
  obtain ⟨sameID, sameURL⟩ := update_flt_id crc32 uf download now
  generalize update crc32 uf download now = u at cases sameID sameURL
  have listed : (s.results ++ [u]).map (·.flt.id) ++ todo.map (·.id) =
      s.results.map (·.flt.id) ++ s.todo.map (·.id) := by
    simp only [head, List.map_append, List.map_cons, List.map_nil, sameID, List.append_assoc, List.cons_append,
      List.nil_append]
  have later {id : Nat} (mem : id ∈ todo.map (·.id)) : id ∈ s.todo.map (·.id) := by
    rw [head]
    exact List.mem_cons_of_mem _ mem
  -- only the first copy has its ID
  have fresh {r : Updated} (result : r ∈ s.results) : r.flt.id ≠ uf.id := by
    intro same
    have disjoint := (List.nodup_append.mp inv.copies).2.2
    refine disjoint r.flt.id (List.mem_map_of_mem (f := fun u => u.flt.id) result) uf.id ?_ same
    rw [head]
    exact List.mem_cons_self
  have pending {f : FilterYAML} {stored : List Nat} (sub : ∀ id ∈ s.stored, id ∈ stored) (isPending : Pending s f) :
      f.id ∈ stored ∧ ∃ r ∈ s.results ++ [u], r.updated = true ∧ r.flt.id = f.id ∧ r.flt.url = f.url := by
    obtain ⟨isStored, r, result, rest⟩ := isPending
    exact ⟨sub _ isStored, r, List.mem_append_left _ result, rest⟩
  constructor
  · exact inv.ids
  · rw [listed]
    exact inv.copies
  · intro white' going'
    rw [listed]
    exact inv.own white' going'
  · intro idle
    exact absurd (idle.symm.trans going) (by simp)
  · intro f mem loaded
    rcases cases with ⟨noFile, -⟩ | ⟨title, rules, parsed, differs, replaced⟩
    · rw [noFile]
      rcases inv.tracked f mem loaded with matched | isPending
      · exact .inl matched
      · exact .inr (pending (fun _ stored => stored) isPending)
    · by_cases this : f.id = uf.id
      · have enabled : f.enabled = true := by
          by_contra disabled
          have zero := inv.unloaded f mem (Bool.eq_false_iff.mpr disabled)
            (by rw [head, this]; exact List.mem_cons_self)
          exact loaded.elim disabled fun nonzero => nonzero zero
        right
        refine ⟨?_, u, List.mem_append_right _ (List.mem_singleton_self u), ?_, sameID.trans this.symm, ?_⟩
        · rw [replaced, this]
          exact List.mem_cons_self
        · rw [replaced]
        · exact sameURL.trans (allowed title rules parsed differs f mem this enabled).symm
      · rcases inv.tracked f mem loaded with matched | isPending
        · exact .inl (matched.congr (putFile_of_ne this) rfl rfl rfl)
        · right
          refine pending (fun id stored => ?_) isPending
          rw [replaced]
          exact List.mem_cons_of_mem _ stored
  · intro f mem disabled copied
    exact inv.unloaded f mem disabled (later copied)
  · intro id mem
    have earlier (stored : id ∈ s.stored) : ∃ r ∈ s.results ++ [u], r.flt.id = id ∧ r.err = none ∧
        Matches crc32 (s.putFile uf.id u.file) r.flt := by
      obtain ⟨r, result, same, succeeded, matched⟩ := inv.stored id stored
      exact ⟨r, List.mem_append_left _ result, same, succeeded,
        matched.congr (putFile_of_ne (fresh result)) rfl rfl rfl⟩
    rcases cases with ⟨noFile, -⟩ | ⟨title, rules, -, -, replaced⟩
    · rw [noFile] at mem
      exact earlier mem
    · rw [replaced] at mem
      rcases List.mem_cons.mp mem with rfl | stored
      · refine ⟨u, List.mem_append_right _ (List.mem_singleton_self u), sameID, ?_, ?_⟩
        · rw [replaced]
        · rw [replaced]
          exact ⟨⟨uf.url, rules⟩, putFile_self, rfl, rfl, rfl⟩
      · exact earlier stored
  · exact inv.named

end Refresh

/-! ### Writing back -/

section WriteBack

variable {s : State} {white : Bool} {u : Updated} {f : FilterYAML}

/-- An outcome for this record. -/
def IsFor (u : Updated) (f : FilterYAML) : Prop := u.flt.id = f.id ∧ u.flt.url = f.url

/-- What the loops make of one record. -/
def writeAll (results : List Updated) (f : FilterYAML) : FilterYAML := results.foldl (fun f u => writeRecord u f) f

theorem writeBack_eq_map (filters : List FilterYAML) (results : List Updated) :
    writeBack filters results = filters.map (writeAll results) := by
  unfold writeBack
  induction results generalizing filters with
  | nil => exact (List.map_id _).symm
  | cons u results ih =>
    rw [List.foldl_cons, ih, List.map_map]
    rfl

theorem writeRecord_id : (writeRecord u f).id = f.id ∧ (writeRecord u f).url = f.url := by
  unfold writeRecord
  split
  · exact ⟨rfl, rfl⟩
  · split
    · exact ⟨rfl, rfl⟩
    · exact ⟨rfl, rfl⟩

theorem writeRecord_of_not_for (other : ¬IsFor u f) : writeRecord u f = f := by
  unfold writeRecord
  rw [if_pos]
  by_contra same
  push Not at same
  exact other ⟨same.1.symm, same.2.symm⟩

/-- At most one outcome is for a record. -/
theorem writeAll_cases {results : List Updated} (distinct : (results.map (·.flt.id)).Nodup) (f : FilterYAML) :
    (∀ u ∈ results, ¬IsFor u f) ∧ writeAll results f = f ∨
      ∃ u ∈ results, IsFor u f ∧ writeAll results f = writeRecord u f := by
  induction results generalizing f with
  | nil => exact .inl ⟨fun u mem => absurd mem List.not_mem_nil, rfl⟩
  | cons u results ih =>
    obtain ⟨fresh, distinct⟩ := List.nodup_cons.mp distinct
    have unfold : writeAll (u :: results) f = writeAll results (writeRecord u f) := rfl
    rw [unfold]
    by_cases this : IsFor u f
    · right
      refine ⟨u, List.mem_cons_self, this, ?_⟩
      rcases ih distinct (writeRecord u f) with ⟨-, same⟩ | ⟨u', mem, same, -⟩
      · exact same
      · refine absurd (List.mem_map_of_mem (f := fun u => u.flt.id) mem) ?_
        rw [same.1, writeRecord_id.1, ← this.1]
        exact fresh
    · rw [writeRecord_of_not_for this]
      rcases ih distinct f with ⟨none, same⟩ | ⟨u', mem, isFor, same⟩
      · refine .inl ⟨fun u' mem => ?_, same⟩
        rcases List.mem_cons.mp mem with rfl | mem
        · exact this
        · exact none u' mem
      · exact .inr ⟨u', List.mem_cons_of_mem _ mem, isFor, same⟩

theorem writeAll_id (results : List Updated) (f : FilterYAML) : (writeAll results f).id = f.id := by
  induction results generalizing f with
  | nil => rfl
  | cons u results ih => exact (ih (writeRecord u f)).trans writeRecord_id.1

theorem Inv.stored_matches (inv : Inv crc32 s) (result : u ∈ s.results) (stored : u.flt.id ∈ s.stored) :
    Matches crc32 s.files u.flt := by
  obtain ⟨u', result', sameID, -, matched⟩ := inv.stored _ stored
  have distinct := (List.nodup_append.mp inv.copies).1
  rw [List.inj_on_of_nodup_map distinct result result' sameID.symm]
  exact matched

/-- What is written matches the file. -/
theorem Inv.written (inv : Inv crc32 s) (mem : f ∈ s.all)
    (allowed : ∀ u ∈ s.results, u.updated = true → f.id = u.flt.id → f.url = u.flt.url →
      f.id ∈ s.stored ∧ ∀ name, s.named f.id = some name → name = u.flt.name) :
    ((writeAll s.results f).enabled = true ∨ (writeAll s.results f).checksum ≠ 0 →
        Matches crc32 s.files (writeAll s.results f)) ∧
      ∀ name, s.named f.id = some name → (writeAll s.results f).name = name := by
  have distinct := (List.nodup_append.mp inv.copies).1
  have unwritten (none : ∀ u ∈ s.results, u.updated = true → ¬IsFor u f) (loaded : f.enabled = true ∨ f.checksum ≠ 0) :
      Matches crc32 s.files f := by
    rcases inv.tracked f mem loaded with matched | ⟨-, u, result, updated, isFor⟩
    · exact matched
    · exact absurd isFor (none u result updated)
  rcases writeAll_cases distinct f with ⟨none, same⟩ | ⟨u, result, isFor, same⟩
  · rw [same]
    exact ⟨unwritten fun u result _ => none u result, inv.named f mem⟩
  · rw [same]
    have matchesID : ¬(f.id ≠ u.flt.id ∨ f.url ≠ u.flt.url) := by
      push Not
      exact ⟨isFor.1.symm, isFor.2.symm⟩
    unfold writeRecord
    rw [if_neg matchesID]
    cases updated : u.updated with
    | false =>
      refine ⟨fun loaded => (unwritten ?_ loaded).congr rfl rfl rfl rfl, inv.named f mem⟩
      intro u' result' updated' isFor'
      rw [List.inj_on_of_nodup_map distinct result' result (isFor'.1.trans isFor.1.symm)] at updated'
      exact absurd (updated.symm.trans updated') (by decide)
    | true =>
      obtain ⟨stored, named⟩ := allowed u result updated isFor.1.symm isFor.2.symm
      refine ⟨fun _ => ?_, fun name isNamed => (named name isNamed).symm⟩
      have matched := inv.stored_matches result (isFor.1 ▸ stored)
      refine matched.congr ?_ isFor.2.symm rfl rfl
      exact congrArg s.files isFor.1.symm

theorem Inv.rest (ids : (s.all.map (·.id)).Nodup)
    (tracked : ∀ f ∈ s.all, f.enabled = true ∨ f.checksum ≠ 0 → Matches crc32 s.files f)
    (named : ∀ f ∈ s.all, ∀ name, s.named f.id = some name → f.name = name) : Inv crc32 s.rest where
  ids := ids
  copies := List.nodup_nil
  own := fun white going => by cases going
  idle := fun _ => ⟨rfl, rfl⟩
  tracked := fun f mem loaded => .inl (tracked f mem loaded)
  unloaded := fun f mem disabled copied => by cases copied
  stored := fun id mem => by cases mem
  named := named

/-- No file was replaced if every update failed. -/
theorem Inv.failed (inv : Inv crc32 s) (failed : allFailed s.results = true) : Inv crc32 s.rest := by
  refine Inv.rest inv.ids (fun f mem loaded => ?_) inv.named
  rcases inv.tracked f mem loaded with matched | ⟨stored, -⟩
  · exact matched
  · obtain ⟨u, result, -, succeeded, -⟩ := inv.stored _ stored
    have err := List.all_eq_true.mp failed u result
    rw [succeeded] at err
    cases err

/-- The results are written to the records. -/
theorem Inv.finished (inv : Inv crc32 s) (going : s.refreshing = some white)
    (allowed : ∀ u ∈ s.results, u.updated = true → ∀ f ∈ s.all, f.id = u.flt.id → f.url = u.flt.url →
      f.id ∈ s.stored ∧ ∀ name, s.named f.id = some name → name = u.flt.name) :
    Inv crc32 (s.setArray white (writeBack (s.array white) s.results)).rest := by
  rw [writeBack_eq_map]
  have sameIDs : ((s.array white).map (writeAll s.results)).map (·.id) = (s.array white).map (·.id) := by
    rw [List.map_map]
    exact List.map_congr_left fun f _ => writeAll_id s.results f
  have members {f : FilterYAML} (mem : f ∈ (s.setArray white ((s.array white).map (writeAll s.results))).all) :
      (f ∈ s.all ∧ ∀ u ∈ s.results, u.flt.id ≠ f.id) ∨ ∃ f₀ ∈ s.all, f = writeAll s.results f₀ := by
    rcases State.mem_all_setArray mem with mem | mem
    · obtain ⟨f₀, mem₀, rfl⟩ := List.mem_map.mp mem
      exact .inr ⟨f₀, State.array_sub mem₀, rfl⟩
    · refine .inl ⟨State.array_sub mem, fun u result same => ?_⟩
      have isOwn := inv.own white going u.flt.id
        (List.mem_append_left _ (List.mem_map_of_mem (f := fun u => u.flt.id) result))
      rw [same] at isOwn
      exact array_disjoint inv isOwn (List.mem_map_of_mem mem)
  apply Inv.rest
  · rw [State.all_ids, State.setArray_ids sameIDs, State.setArray_ids sameIDs, ← State.all_ids]
    exact inv.ids
  · intro f mem loaded
    rw [State.setArray_files]
    rcases members mem with ⟨mem, others⟩ | ⟨f₀, mem₀, rfl⟩
    · rcases inv.tracked f mem loaded with matched | ⟨-, u, result, -, sameID, -⟩
      · exact matched
      · exact absurd sameID (others u result)
    · exact (inv.written mem₀ fun u result updated => allowed u result updated f₀ mem₀).1 loaded
  · intro f mem name isNamed
    rw [State.setArray_named] at isNamed
    rcases members mem with ⟨mem, -⟩ | ⟨f₀, mem₀, rfl⟩
    · exact inv.named f mem name isNamed
    · rw [writeAll_id] at isNamed
      exact (inv.written mem₀ fun u result updated => allowed u result updated f₀ mem₀).2 name isNamed

end WriteBack

/-! ### Runs -/

section Runs

variable {s s' : State}

theorem Inv.step (inv : Inv crc32 s) {action : Action} {answer : Answer} (allowed : Allowed crc32 s action)
    (taken : step crc32 s action = some (s', answer)) : Inv crc32 s' := by
  cases action with
  | filterSetProperties listURL newList isAllowlist download now =>
    unfold Filtering.step at taken
    simp only at taken
    split at taken
    · cases taken
      exact inv
    · rename_i i at'
      split at taken
      · cases taken
      · rename_i flt found
        cases taken
        have sameURL : flt.url = listURL := by
          have holds := (List.findIdx?_eq_some_iff_getElem.mp at').2.1
          rw [(List.getElem?_eq_some_iff.mp found).2] at holds
          exact of_decide_eq_true holds
        exact (callAt_changed found (allowed flt (List.mem_of_getElem? found) sameURL)).inv inv
  | startRefresh white force interval now =>
    unfold Filtering.step at taken
    simp only at taken
    split at taken
    · cases taken
    · rename_i free
      have idle : s.refreshing = none := by simpa using free
      split at taken
      · cases taken
        exact ⟨inv.ids, inv.copies, inv.own, inv.idle, inv.tracked, inv.unloaded, inv.stored,
          fun f mem name isNamed => by cases isNamed⟩
      · cases taken
        exact inv.started idle
  | refreshNext download now =>
    unfold Filtering.step at taken
    simp only at taken
    split at taken
    · rename_i white uf todo going head
      cases taken
      refine inv.next head going ?_
      exact allowed uf (by rw [head]; rfl)
    · cases taken
  | finishRefresh =>
    unfold Filtering.step at taken
    simp only at taken
    split at taken
    · rename_i white going _
      split at taken
      · rename_i failed
        cases taken
        exact inv.failed failed
      · rename_i some
        cases taken
        exact inv.finished going (allowed (Bool.eq_false_iff.mpr some))
    · cases taken

/-- In every run whose steps are allowed, once the refresh is over the records of enabled lists match
their files, and the names that users have set are kept. -/
theorem refresh_keeps (start : Start crc32 s) (run : Reaches (step crc32) (Allowed crc32) s s')
    (finished : s'.refreshing = none) : Kept crc32 s' := by
  have inv : Inv crc32 s' := run.invariant start.inv fun _ _ _ _ before allowed taken => before.step allowed taken
  intro f mem
  exact ⟨fun enabled => inv.matches_of_idle finished mem (.inl enabled), inv.named f mem⟩

end Runs

/-! ### A list that is renamed during its refresh -/

def listA : FilterYAML := ⟨1, "https://a.example/list", "A", true, 1, 0, ieee ["||a^"]⟩

/-- One list with its file. -/
def oneList : State where
  filters := [listA]
  whitelistFilters := []
  files := fun id => if id = 1 then some ⟨"https://a.example/list", ["||a^"]⟩ else none
  refreshing := none
  todo := []
  results := []
  stored := []
  named := fun _ => none

theorem oneList_start : Start ieee oneList where
  refreshing := rfl
  todo := rfl
  results := rfl
  stored := rfl
  named := fun _ => rfl
  ids := List.nodup_singleton 1
  enabled := by
    intro f mem _
    obtain rfl := List.mem_singleton.mp mem
    exact ⟨⟨"https://a.example/list", ["||a^"]⟩, rfl, rfl, rfl, rfl⟩
  disabled := by
    intro f mem disabled
    obtain rfl := List.mem_singleton.mp mem
    cases disabled

def start : Action := .startRefresh false true 0 5

def rename : Action :=
  .filterSetProperties "https://a.example/list" ⟨"Mine", "https://a.example/list", true⟩ false (.failed "") 5

def copyA : FilterYAML := ⟨1, "https://a.example/list", "A", false, 0, 0, ieee ["||a^"]⟩

/-- The states of a refresh that finds the list unchanged. -/
def started : State := { oneList with refreshing := some false, todo := [copyA] }

def renamed : State :=
  { started with
    filters := [{ listA with name := "Mine" }]
    named := fun id => if id = 1 then some "Mine" else none }

def checked : State :=
  { renamed with todo := [], results := [⟨{ copyA with lastUpdated := 5 }, false, none, none⟩] }

def refreshed : State :=
  { oneList with
    filters := [{ listA with name := "Mine", lastUpdated := 5 }]
    named := fun id => if id = 1 then some "Mine" else none }

theorem step_checked : step ieee renamed (.refreshNext (.parsed "" ["||a^"] none) 5) = some (checked, .going) := by
  have same : updateIntl ieee copyA (.parsed "" ["||a^"] none) = ⟨copyA, false, none, none⟩ := by
    unfold updateIntl
    exact if_pos rfl
  simp only [step, renamed, started, update, same]
  rfl

/-- A name that is set while the list is unchanged is kept. -/
theorem refreshed_keeps : Reaches (step ieee) (Allowed ieee) oneList refreshed ∧ Kept ieee refreshed := by
  have run : Reaches (step ieee) (Allowed ieee) oneList refreshed := by
    have first : Reaches (step ieee) (Allowed ieee) oneList started :=
      Reaches.refl.tail (a := start) (b := .going) trivial rfl
    have second : Reaches (step ieee) (Allowed ieee) oneList renamed := by
      refine first.tail (a := rename) (b := .call (.ok false)) ?_ rfl
      intro flt mem _ _ restarts
      obtain rfl := List.mem_singleton.mp mem
      cases restarts
    have third : Reaches (step ieee) (Allowed ieee) oneList checked := by
      refine second.tail ?_ step_checked
      intro uf head title rules parsed differs
      cases head
      cases parsed
      exact absurd rfl differs
    refine third.tail (a := .finishRefresh) (b := .refreshed 0 false) ?_ rfl
    intro _ u mem updated
    obtain rfl := List.mem_singleton.mp mem
    cases updated
  exact ⟨run, refresh_keeps oneList_start run rfl⟩

/-- A name that is set while the list has changed is lost. -/
theorem renamed_not_keeps :
    ∃ s, exec (step ieee) oneList [start, rename, .refreshNext (.parsed "" ["||b^"] none) 5, .finishRefresh] = some s ∧
      s.refreshing = none ∧ ¬Kept ieee s := by
  have ends : (exec (step ieee) oneList
      [start, rename, .refreshNext (.parsed "" ["||b^"] none) 5, .finishRefresh]).map
        (fun s => (s.refreshing, s.filters.map fun f => (f.id, f.name), s.named 1)) =
      some (none, [(1, "A")], some "Mine") := by
    decide +kernel
  obtain ⟨s, done, values⟩ := Option.map_eq_some_iff.mp ends
  simp only [Prod.mk.injEq] at values
  obtain ⟨idle, records, isNamed⟩ := values
  refine ⟨s, done, idle, fun kept => ?_⟩
  have mem : (1, "A") ∈ s.filters.map fun f => (f.id, f.name) := by
    rw [records]
    exact List.mem_singleton_self _
  obtain ⟨f, isRecord, same⟩ := List.mem_map.mp mem
  simp only [Prod.mk.injEq] at same
  obtain ⟨id, name⟩ := same
  have keptName := (kept f (List.mem_append_left _ isRecord)).2 "Mine" (by rw [id]; exact isNamed)
  exact absurd (name.symm.trans keptName) (by decide)

end FirewallCore.Filtering

/-!
What a failed call of `filterSetProperties` leaves (`filtering/filter.go`).

The deferred function puts five fields back. The checksum is not one of them, and
`unload` clears it when the URL changes.
-/

namespace FirewallCore.Filtering

variable {crc32 : List String → UInt32}

/-- A failure of the call does not lose a checksum: the URL stays, or is refused because another
list has it, or there is no checksum yet. -/
def KeepsChecksum (s : State) (listURL : String) (newList : Props) (isAllowlist : Bool) : Prop :=
  ∀ flt, (s.array isAllowlist).find? (·.url = listURL) = some flt →
    newList.url = listURL ∨ s.filterExists newList.url = true ∨ flt.checksum = 0

/-! ### One record -/

section Record

variable {isTaken : Bool} {flt : FilterYAML} {newList : Props} {download : Download} {now : Nat}

/-- A failed update changes the time only. -/
theorem update_flt_of_err {err : String} (failed : (update crc32 flt download now).err = some err) :
    (update crc32 flt download now).flt = { flt with lastUpdated := now } := by
  rcases update_cases crc32 flt download now with ⟨-, same, -⟩ | ⟨title, rules, -, -, replaced⟩
  · exact same
  · rw [replaced] at failed
    cases failed

/-- The deferred function puts back all but the checksum. -/
theorem restore_withProps (flt : FilterYAML) (newList : Props) (now : Nat) :
    restore flt { withProps flt newList with lastUpdated := now } =
      { flt with checksum := if flt.url = newList.url then flt.checksum else 0 } := by
  unfold restore withProps
  by_cases same : flt.url = newList.url
  · simp [same]
  · simp [same, FilterYAML.unload]

/-- What a call that fails leaves of the record. -/
theorem setRecord_of_error {err : String}
    (failed : (setRecord crc32 isTaken flt newList download now).2.2 = .error err) :
    (setRecord crc32 isTaken flt newList download now).1 =
      { flt with checksum := if flt.url = newList.url ∨ isTaken then flt.checksum else 0 } := by
  unfold setRecord at failed ⊢
  split
  · rename_i taken
    simp [taken.2]
  · rename_i free
    rw [if_neg free] at failed
    simp only at failed ⊢
    by_cases enabled : newList.enabled = true
    · rw [if_pos enabled] at failed ⊢
      by_cases restarts : shouldRestart flt newList = true
      · rw [if_pos restarts] at failed ⊢
        cases outcome : (update crc32 (withProps flt newList) download now).err with
        | none =>
          rw [outcome] at failed
          cases failed
        | some reason =>
          have free : flt.url ≠ newList.url → ¬isTaken = true :=
            fun other taken => free ⟨other, taken⟩
          simp only [update_flt_of_err outcome, restore_withProps]
          by_cases same : flt.url = newList.url
          · rw [if_pos same, if_pos (.inl same)]
          · rw [if_neg same, if_neg (not_or.mpr ⟨same, free same⟩)]
      · rw [if_neg restarts] at failed
        cases failed
    · rw [if_neg enabled] at failed
      cases failed

/-- Nothing is lost if the checksum is put back, or is none. -/
theorem restored_iff {putBack : Prop} [Decidable putBack] :
    { flt with checksum := if putBack then flt.checksum else 0 } = flt ↔
      putBack ∨ flt.checksum = 0 := by
  by_cases same : putBack
  · simp [same]
  · rw [if_neg same, or_iff_right same]
    constructor
    · intro unchanged
      exact (congrArg FilterYAML.checksum unchanged).symm
    · intro empty
      rw [← empty]

end Record

/-! ### The lists -/

section Lists

variable {s s' : State} {listURL err : String} {newList : Props} {isAllowlist : Bool}
variable {download : Download} {now : Nat}

theorem find_of_findIdx {i : Nat} {l : List FilterYAML} {flt : FilterYAML} {p : FilterYAML → Bool}
    (index : l.findIdx? p = some i) (found : l[i]? = some flt) : l.find? p = some flt := by
  rw [List.find?_eq_bind_findIdx?_getElem?, index]
  exact found

theorem set_eq_self_iff {i : Nat} {l : List FilterYAML} {flt flt' : FilterYAML}
    (found : l[i]? = some flt) :
    l.set i flt' = l ↔ flt' = flt := by
  obtain ⟨bound, rfl⟩ := List.getElem?_eq_some_iff.mp found
  constructor
  · intro same
    rw [← List.getElem_set_self (a := flt') (by rwa [List.length_set])]
    exact List.getElem_of_eq same _
  · rintro rfl
    exact List.set_getElem_self bound

theorem setArray_eq_iff (s : State) (white : Bool) (l : List FilterYAML) :
    ((s.setArray white l).filters = s.filters ∧
      (s.setArray white l).whitelistFilters = s.whitelistFilters) ↔ l = s.array white := by
  cases white with
  | false => exact and_iff_left rfl
  | true => exact and_iff_right rfl

/-- A call that returns an error leaves every record as it was if and only if no checksum is
lost. -/
theorem filterSetProperties_rolls_back_iff
    (failed : step crc32 s (.filterSetProperties listURL newList isAllowlist download now) =
      some (s', .call (.error err))) :
    (s'.filters = s.filters ∧ s'.whitelistFilters = s.whitelistFilters) ↔
      KeepsChecksum s listURL newList isAllowlist := by
  unfold step at failed
  simp only at failed
  unfold KeepsChecksum
  split at failed
  · rename_i none
    cases failed
    have absent : (s.array isAllowlist).find? (·.url = listURL) = Option.none := by
      rw [List.find?_eq_bind_findIdx?_getElem?, none]
      rfl
    rw [absent]
    exact iff_of_true ⟨rfl, rfl⟩ fun flt found => by cases found
  · rename_i i index
    split at failed
    · cases failed
    · rename_i flt found
      rw [find_of_findIdx index found]
      simp only [Option.some.injEq, forall_eq']
      have isURL : flt.url = listURL := by
        have holds := List.find?_some (find_of_findIdx index found)
        simpa using holds
      have called := Option.some.inj failed
      have outcome : (setRecord crc32 (s.filterExists newList.url) flt newList download now).2.2 =
          .error err :=
        Answer.call.inj (congrArg Prod.snd called)
      obtain rfl : (callAt crc32 s isAllowlist i flt newList download now).1 = s' :=
        congrArg Prod.fst called
      unfold callAt
      simp only [setRecord_of_error outcome]
      rw [setArray_eq_iff, set_eq_self_iff found, ← isURL, restored_iff]
      constructor
      · rintro ((same | taken) | empty)
        · exact .inl same.symm
        · exact .inr (.inl taken)
        · exact .inr (.inr empty)
      · rintro (same | taken | empty)
        · exact .inl (.inl same.symm)
        · exact .inl (.inr taken)
        · exact .inr empty

end Lists

/-! ### A URL that cannot be downloaded -/

def moveA : Action :=
  .filterSetProperties "https://a.example/list" ⟨"A", "https://b.example/list", true⟩ false
    (.failed "not found") 5

def enableA : Action :=
  .filterSetProperties "https://a.example/list" ⟨"B", "https://a.example/list", true⟩ false
    (.failed "not found") 5

/-- One list that is not enabled. -/
def oneDisabled : State := { oneList with filters := [{ listA with enabled := false }] }

/-- The name and the flag are put back when the list cannot be enabled. -/
theorem enable_rolls_back :
    ∃ s', step ieee oneDisabled enableA = some (s', .call (.error "not found")) ∧
      s'.filters = oneDisabled.filters ∧ s'.whitelistFilters = oneDisabled.whitelistFilters := by
  have failed : step ieee oneDisabled enableA = some (_, .call (.error "not found")) := rfl
  refine ⟨_, failed, (filterSetProperties_rolls_back_iff failed).mpr ?_⟩
  intro flt _
  exact .inl rfl

/-- The checksum is lost when the list cannot be downloaded from the new URL. -/
theorem move_not_rolled_back :
    ∃ s', step ieee oneList moveA = some (s', .call (.error "not found")) ∧
      oneList.filters = [listA] ∧ s'.filters = [{ listA with checksum := 0 }] ∧
      listA.checksum ≠ 0 := by
  refine ⟨_, rfl, rfl, rfl, ?_⟩
  decide +kernel

end FirewallCore.Filtering
