import FirewallCore.Mikrotik.SoftConfig
import FirewallCore.Mikrotik.RunLengths

/-!
Where the parsing of the two RouterBoot partitions reads, and what is published of them.

The length of a tag is taken from its node. It is compared with the partition for the WLAN data
only, and the position of a payload is cut to 16 bits.
-/

namespace FirewallCore.Mikrotik

open FirewallCore.Lib

/-! ### Parsing stays in bounds -/

/-- The WLAN data of a hard configuration. -/
structure WlanAt (e : Endian) (conf : List UInt8) (ofs len : Nat) : Prop where
  magic : (readWord e conf 0 : Checked Errno Nat) = .ok magicHard
  place : locate e conf 4 wlanData = .ok (some (ofs, len))
  notEmpty : len ≠ 0

/-- The hard configuration. -/
structure HardInside (m : Machine) (conf : List UInt8) : Prop where
  init : ¬Outside (rbHardconfigInit m conf)
  published : ∀ attrs, rbHardconfigInit m conf = .ok attrs →
    ∀ attr ∈ attrs, attr.pldOfs + attr.pldLen ≤ conf.length
  unpack : ∀ ofs len, WlanAt m.endian conf ofs len → ∀ tagId < 2 ^ 16,
    ¬Outside (hcWlanDataUnpack m conf tagId ofs len artSize) ∧
      ∀ out, hcWlanDataUnpack m conf tagId ofs len artSize = .ok out → out.length ≤ artSize

/-- The soft configuration. -/
structure SoftInside (k : SoftConfig.Kernel) (conf : List UInt8) : Prop where
  init : ¬Outside (SoftConfig.rbSoftconfigInit k conf)
  published : ∀ s, SoftConfig.rbSoftconfigInit k conf = .ok s →
    ∀ attr ∈ s.attrs, attr.pldOfs + attr.pldLen ≤ conf.length

/-! ### Conditions -/

/-- Where a payload is said to be, behind the first bytes of a partition. -/
def payloadAt (skip ofs : Nat) : Nat := (ofs % 2 ^ 16 + skip) % 2 ^ 16

/-- The search for a tag behind the first bytes stays inside. -/
def SearchInside (e : Endian) (conf : List UInt8) (skip tagId : Nat) : Prop :=
  ¬LeadsOut e (conf.drop skip) (conf.length - skip) tagId 0

/-- If the tag is found, its payload is inside. -/
def TagInside (e : Endian) (conf : List UInt8) (skip tagId : Nat) : Prop :=
  ∀ ofs len, Leads e (conf.drop skip) (conf.length - skip) tagId 0 ofs len →
    payloadAt skip ofs + len ≤ conf.length

/-- The tags of a hard configuration. -/
structure HardSound (m : Machine) (conf : List UInt8) : Prop where
  search : ∀ attr ∈ hcAttrs, SearchInside m.endian conf 4 attr.1
  named : ∀ attr ∈ hcAttrs, attr.1 ≠ wlanData → TagInside m.endian conf 4 attr.1
  wlan : ∀ ofs len, Leads m.endian (conf.drop 4) (conf.length - 4) wlanData 0 ofs len → len ≠ 0 →
    payloadAt 4 ofs + len ≤ conf.length → ∀ tagId < 2 ^ 16,
    PayloadInside m tagId ((conf.drop (payloadAt 4 ofs)).take len)

/-- The tags of a soft configuration. -/
structure SoftSound (k : SoftConfig.Kernel) (conf : List UInt8) : Prop where
  room : 8 ≤ conf.length
  search : ∀ attr ∈ SoftConfig.scAttrs k.soc, SearchInside k.endian conf 8 attr.tagId
  named : ∀ attr ∈ SoftConfig.scAttrs k.soc, TagInside k.endian conf 8 attr.tagId

section Tags

variable {m : Machine} {k : SoftConfig.Kernel} {e : Endian} {conf : List UInt8} {skip tagId : Nat}

theorem outside_locate_iff (room : skip ≤ conf.length) (given : tagId ≠ 0) :
    Outside (locate e conf skip tagId) ↔ ¬SearchInside e conf skip tagId := by
  have search : Outside (routerbootTagFind e (conf.drop skip) (conf.length - skip) tagId) ↔ _ :=
    outside_tagFind_iff.trans (and_iff_right given)
  rw [locate, if_neg (by omega), SearchInside, not_not, ← search]
  split
  · simp [*]
  · simp [*]
  · simp [*]

theorem locate_eq_some_iff (room : skip ≤ conf.length) (given : tagId ≠ 0) {place : Nat × Nat} :
    locate e conf skip tagId = .ok (some place) ↔
      ∃ ofs len, Leads e (conf.drop skip) (conf.length - skip) tagId 0 ofs len ∧
        place = (payloadAt skip ofs, len) := by
  rw [locate, if_neg (by omega)]
  constructor
  · intro found
    split at found
    · cases found
    · cases found
    · rename_i ofs len there
      obtain ⟨-, ofs', len', leads, same⟩ := tagFind_eq_ok_iff.mp there
      cases same
      cases found
      exact ⟨ofs', len, leads, rfl⟩
  · rintro ⟨ofs, len, leads, rfl⟩
    rw [tagFind_eq_ok_iff.mpr ⟨given, ofs, len, leads, rfl⟩]
    rfl

theorem locate_ne_error (error : Errno) : locate e conf skip tagId ≠ .error (.error error) := by
  unfold locate
  split
  · nofun
  · split <;> nofun

end Tags

/-! ### The hard configuration -/

section Hard

variable {m : Machine} {conf : List UInt8} {ofs len tagId : Nat}

theorem outside_hcWlanDataUnpack_iff (respects : ∀ input n, (m.lzo input n).2.length ≤ n) :
    Outside (hcWlanDataUnpack m conf tagId ofs len artSize) ↔
      ofs + len ≤ conf.length ∧ ¬PayloadInside m tagId ((conf.drop ofs).take len) := by
  unfold hcWlanDataUnpack
  split
  · exact iff_of_false not_outside_error (fun all => absurd all.1 (by omega))
  · rw [outside_unpackPayload_iff respects, and_iff_right (by omega)]

theorem publishUnpacked_eq (attr : Nat × String) : publishUnpacked m conf ofs len attr =
    match hcWlanDataUnpack m conf attr.1 ofs len artSize with
    | .ok _ => .ok [⟨attr.2, ofs, len⟩]
    | .error (.error _) => .ok []
    | .error .outside => .error .outside := by
  unfold publishUnpacked unpacks
  cases hcWlanDataUnpack m conf attr.1 ofs len artSize with
  | ok out => rfl
  | error fault => cases fault <;> rfl

theorem publishUnpacked_ne_error {attr : Nat × String} (error : Errno) :
    publishUnpacked m conf ofs len attr ≠ .error (.error error) := by
  rw [publishUnpacked_eq]
  split <;> nofun

theorem outside_publishUnpacked_iff {attr : Nat × String} :
    Outside (publishUnpacked m conf ofs len attr) ↔
      Outside (hcWlanDataUnpack m conf attr.1 ofs len artSize) := by
  rw [publishUnpacked_eq]
  split
  · simp [*]
  · simp [*]
  · simp [*]

theorem publishUnpacked_ok {attr : Nat × String} {attrs : List Published}
    (done : publishUnpacked m conf ofs len attr = .ok attrs) :
    ∀ attr ∈ attrs, attr.pldOfs + attr.pldLen ≤ conf.length := by
  rw [publishUnpacked_eq] at done
  split at done
  · rename_i out unpacked
    cases done
    unfold hcWlanDataUnpack at unpacked
    split at unpacked
    · cases unpacked
    · simpa using Nat.not_lt.mp ‹_›
  · cases done
    simp
  · cases done

theorem publishWlan_ne_error (error : Errno) :
    publishWlan m conf ofs len ≠ .error (.error error) := by
  intro failed
  rcases bind_eq_error_iff.mp failed with first | ⟨solo, -, failed⟩
  · exact publishUnpacked_ne_error error first
  · cases solo with
    | nil =>
      rcases bind_eq_error_iff.mp failed with later | ⟨published, -, failed⟩
      · exact mapM_ne_error (fun attr _ => publishUnpacked_ne_error) error later
      · cases failed
    | cons a l => cases failed

theorem publishWlan_ok {attrs : List Published} (done : publishWlan m conf ofs len = .ok attrs) :
    ∀ attr ∈ attrs, attr.pldOfs + attr.pldLen ≤ conf.length := by
  obtain ⟨solo, first, done⟩ := bind_eq_ok_iff.mp done
  cases solo with
  | nil =>
    obtain ⟨published, each, same⟩ := bind_eq_ok_iff.mp done
    cases same
    intro attr mem
    obtain ⟨attrs, there, mem⟩ := List.mem_flatten.mp mem
    obtain ⟨battr, -, found⟩ := (mapM_ok each).1 attrs there
    exact publishUnpacked_ok found attr mem
  | cons a l =>
    cases done
    exact publishUnpacked_ok first

theorem not_outside_publishWlan
    (inside : ∀ tagId < 2 ^ 16, ¬Outside (hcWlanDataUnpack m conf tagId ofs len artSize)) :
    ¬Outside (publishWlan m conf ofs len) := by
  have each : ∀ attr : Nat × String, attr.1 < 2 ^ 16 →
      ¬Outside (publishUnpacked m conf ofs len attr) :=
    fun attr small => outside_publishUnpacked_iff.not.mpr (inside attr.1 small)
  unfold publishWlan
  rw [outside_bind_iff]
  rintro (lost | ⟨solo, -, lost⟩)
  · exact each _ (by decide) lost
  · cases solo with
    | nil =>
      rcases outside_bind_iff.mp lost with lost | ⟨published, -, lost⟩
      · rw [outside_mapM_iff fun attr _ => publishUnpacked_ne_error] at lost
        obtain ⟨attr, mem, lost⟩ := lost
        have small : ∀ attr ∈ hcWdMultiBattrs, attr.1 < 2 ^ 16 := by decide
        exact each attr (small attr mem) lost
      · exact not_outside_ok lost
    | cons a l => exact not_outside_ok lost

theorem publishTag_ne_error {attr : Nat × Option String} (error : Errno) :
    publishTag m conf attr ≠ .error (.error error) := by
  intro failed
  rcases bind_eq_error_iff.mp failed with first | ⟨place, -, failed⟩
  · exact locate_ne_error error first
  · cases place with
    | none => cases failed
    | some place =>
      obtain ⟨ofs, len⟩ := place
      dsimp only at failed
      split at failed
      · exact publishWlan_ne_error error failed
      · cases failed

/-- Every known tag has an identification, and all but the WLAN data have a name. -/
theorem hcAttrs_known : ∀ attr ∈ hcAttrs, attr.1 ≠ 0 ∧ (attr.1 ≠ wlanData ↔ attr.2.isSome) := by
  decide

theorem rbHardconfigInit_eq
    (magic : (readWord m.endian conf 0 : Checked Errno Nat) = .ok magicHard) :
    rbHardconfigInit m conf =
      hcAttrs.mapM (publishTag m conf) >>= fun published => pure published.flatten := by
  rw [rbHardconfigInit, magic]
  rfl

theorem rbHardconfigInit_other (room : 4 ≤ conf.length)
    (other : (readWord m.endian conf 0 : Checked Errno Nat) ≠ .ok magicHard) :
    rbHardconfigInit m conf = .error (.error .einval) := by
  rw [rbHardconfigInit]
  rw [readWord_inside room] at other ⊢
  exact if_pos fun same => other (congrArg _ same)

theorem outside_init_iff (magic : (readWord m.endian conf 0 : Checked Errno Nat) = .ok magicHard) :
    Outside (rbHardconfigInit m conf) ↔ ∃ attr ∈ hcAttrs, Outside (publishTag m conf attr) := by
  rw [rbHardconfigInit_eq magic, outside_bind_iff,
    outside_mapM_iff fun attr _ => publishTag_ne_error]
  simp [pure, Except.pure]

/-- A tag of another kind is published with its place. -/
theorem publishTag_named {attr : Nat × Option String} {name : String} (named : attr.2 = some name)
    (other : attr.1 ≠ wlanData) (place : locate m.endian conf 4 attr.1 = .ok (some (ofs, len))) :
    publishTag m conf attr = .ok [⟨name, ofs, len⟩] := by
  rw [publishTag, place, named]
  change (if attr.1 = wlanData ∧ len ≠ 0 then _ else _) = _
  rw [if_neg fun wlan => other wlan.1]
  rfl

/-- What is published is the place of the tag, or WLAN data that has been unpacked. -/
theorem publishTag_ok {attr : Nat × Option String} {attrs : List Published}
    (done : publishTag m conf attr = .ok attrs) {a : Published} (mem : a ∈ attrs) :
    a.pldOfs + a.pldLen ≤ conf.length ∨
      attr.2.isSome ∧ locate m.endian conf 4 attr.1 = .ok (some (a.pldOfs, a.pldLen)) := by
  obtain ⟨place, found, done⟩ := bind_eq_ok_iff.mp done
  cases place with
  | none =>
    cases done
    cases mem
  | some place =>
    obtain ⟨ofs, len⟩ := place
    dsimp only at done
    split at done
    · exact .inl (publishWlan_ok done a mem)
    · cases done
      obtain ⟨name, named, rfl⟩ := List.mem_map.mp mem
      exact .inr ⟨Option.isSome_iff_exists.mpr ⟨name, Option.mem_toList.mp named⟩, found⟩

/-- The hard configuration is parsed inside of its bounds exactly if it has room for the magic
number and, with that number, its tags are sound. -/
theorem hardInside_iff (respects : ∀ input n, (m.lzo input n).2.length ≤ n) : HardInside m conf ↔
    4 ≤ conf.length ∧
      ((readWord m.endian conf 0 : Checked Errno Nat) = .ok magicHard → HardSound m conf) := by
  constructor
  · intro inside
    have room : 4 ≤ conf.length := by
      by_contra short
      refine inside.init ?_
      rw [rbHardconfigInit, readWord_outside (by omega)]
      rfl
    refine ⟨room, fun magic => ?_⟩
    have tags : ∀ attr ∈ hcAttrs, ¬Outside (publishTag m conf attr) :=
      fun attr mem lost => inside.init ((outside_init_iff magic).mpr ⟨attr, mem, lost⟩)
    refine ⟨fun attr mem => ?_, fun attr mem other ofs len leads => ?_, ?_⟩
    · by_contra lost
      refine tags attr mem (outside_bind_iff.mpr (.inl ?_))
      exact (outside_locate_iff room (hcAttrs_known attr mem).1).mpr lost
    · obtain ⟨given, name⟩ := hcAttrs_known attr mem
      obtain ⟨name, named⟩ := Option.isSome_iff_exists.mp (name.mp other)
      have place := (locate_eq_some_iff room given).mpr ⟨ofs, len, leads, rfl⟩
      have single := publishTag_named named other place
      obtain ⟨published, each⟩ := mapM_returns (fun _ _ => publishTag_ne_error) tags
      have started := rbHardconfigInit_eq magic
      rw [each] at started
      refine inside.published _ started ⟨name, payloadAt 4 ofs, len⟩ ?_
      obtain ⟨attrs, there, found⟩ := (mapM_ok each).2 attr mem
      rw [single] at found
      cases found
      exact List.mem_flatten.mpr ⟨_, there, List.mem_singleton.mpr rfl⟩
    · intro ofs len leads notEmpty fits tagId small
      have place := (locate_eq_some_iff room (by decide)).mpr ⟨ofs, len, leads, rfl⟩
      have stays := (inside.unpack _ _ ⟨magic, place, notEmpty⟩ tagId small).1
      rw [outside_hcWlanDataUnpack_iff respects] at stays
      by_contra lost
      exact stays ⟨fits, lost⟩
  · rintro ⟨room, sound⟩
    have unpack : ∀ ofs len, WlanAt m.endian conf ofs len → ∀ tagId < 2 ^ 16,
        ¬Outside (hcWlanDataUnpack m conf tagId ofs len artSize) := by
      rintro ofs len ⟨magic, place, notEmpty⟩ tagId small lost
      obtain ⟨fits, lost⟩ := (outside_hcWlanDataUnpack_iff respects).mp lost
      obtain ⟨ofs, len, leads, same⟩ := (locate_eq_some_iff room (by decide)).mp place
      cases same
      exact lost ((sound magic).wlan ofs len leads notEmpty fits tagId small)
    have size : ∀ ofs len tagId out, hcWlanDataUnpack m conf tagId ofs len artSize = .ok out →
        out.length ≤ artSize := by
      intro ofs len tagId out done
      unfold hcWlanDataUnpack at done
      split at done
      · cases done
      · exact length_unpackPayload respects done
    by_cases magic : (readWord m.endian conf 0 : Checked Errno Nat) = .ok magicHard
    · refine ⟨fun lost => ?_, fun attrs started a mem => ?_, fun ofs len wlan tagId small =>
        ⟨unpack ofs len wlan tagId small, fun out => size ofs len tagId out⟩⟩
      · obtain ⟨attr, mem, lost⟩ := (outside_init_iff magic).mp lost
        rcases outside_bind_iff.mp lost with lost | ⟨place, found, lost⟩
        · exact (outside_locate_iff room (hcAttrs_known attr mem).1).mp lost
            ((sound magic).search attr mem)
        · cases place with
          | none => cases lost
          | some place =>
            obtain ⟨ofs, len⟩ := place
            dsimp only at lost
            split at lost
            · rename_i wlan
              rw [wlan.1] at found
              exact not_outside_publishWlan (unpack ofs len ⟨magic, found, wlan.2⟩) lost
            · cases lost
      · rw [rbHardconfigInit_eq magic] at started
        obtain ⟨published, each, same⟩ := bind_eq_ok_iff.mp started
        cases same
        obtain ⟨attrs, there, mem⟩ := List.mem_flatten.mp mem
        obtain ⟨attr, known, found⟩ := (mapM_ok each).1 attrs there
        rcases publishTag_ok found mem with inside | ⟨named, place⟩
        · exact inside
        · obtain ⟨given, other⟩ := hcAttrs_known attr known
          obtain ⟨ofs, len, leads, same⟩ := (locate_eq_some_iff room given).mp place
          rw [Prod.mk.injEq] at same
          rw [same.1, same.2]
          exact (sound magic).named attr known (other.mpr named) ofs len leads
    · have stops := rbHardconfigInit_other room magic
      refine ⟨?_, ?_, fun ofs len wlan => absurd wlan.magic magic⟩
      · rw [stops]
        exact not_outside_error
      · intro attrs started
        rw [stops] at started
        cases started

end Hard

/-! ### The soft configuration -/

section Soft

variable {k : SoftConfig.Kernel} {conf : List UInt8}

open SoftConfig

theorem scAttrs_known (soc : Soc) : ∀ attr ∈ scAttrs soc, attr.tagId ≠ 0 := by
  cases soc <;> decide

theorem placeTag_ne_error {attr : Attr} (error : Errno) :
    placeTag k conf attr ≠ .error (.error error) := by
  intro failed
  rcases bind_eq_error_iff.mp failed with first | ⟨place, -, failed⟩
  · exact locate_ne_error error first
  · cases place with
    | none => cases failed
    | some place => cases failed

theorem outside_placeTag_iff {attr : Attr} :
    Outside (placeTag k conf attr) ↔ Outside (locate k.endian conf 8 attr.tagId) := by
  unfold placeTag
  rw [outside_bind_iff]
  refine or_iff_left ?_
  rintro ⟨place, -, lost⟩
  cases place with
  | none => cases lost
  | some place => cases lost

theorem placeTag_ok {attr : Attr} {placed : Placed} (done : placeTag k conf attr = .ok placed) :
    placed.pldOfs + placed.pldLen = 0 ∨
      locate k.endian conf 8 attr.tagId = .ok (some (placed.pldOfs, placed.pldLen)) := by
  obtain ⟨place, found, done⟩ := bind_eq_ok_iff.mp done
  cases place with
  | none =>
    cases done
    exact .inl rfl
  | some place =>
    cases done
    exact .inr found

theorem placeTag_located {attr : Attr} {ofs len : Nat}
    (place : locate k.endian conf 8 attr.tagId = .ok (some (ofs, len))) :
    placeTag k conf attr = .ok ⟨attr, ofs, len⟩ := by
  rw [placeTag, place]
  rfl

theorem rbSoftconfigInit_eq
    (magic : (readWord k.endian conf 0 : Checked Errno Nat) = .ok magicSoft) :
    rbSoftconfigInit k conf =
      (scAttrs k.soc).mapM (placeTag k conf) >>= fun attrs => pure ⟨conf, conf, attrs⟩ := by
  rw [rbSoftconfigInit, magic]
  rfl

theorem rbSoftconfigInit_other (room : 4 ≤ conf.length)
    (other : (readWord k.endian conf 0 : Checked Errno Nat) ≠ .ok magicSoft) :
    rbSoftconfigInit k conf = .error (.error .einval) := by
  rw [rbSoftconfigInit]
  rw [readWord_inside room] at other ⊢
  exact if_pos fun same => other (congrArg _ same)

/-- The soft configuration is parsed inside of its bounds exactly if it has room for the magic
number and, with that number, its tags are sound. -/
theorem softInside_iff : SoftInside k conf ↔ 4 ≤ conf.length ∧
    ((readWord k.endian conf 0 : Checked Errno Nat) = .ok magicSoft → SoftSound k conf) := by
  constructor
  · intro inside
    have room : 4 ≤ conf.length := by
      by_contra short
      refine inside.init ?_
      rw [rbSoftconfigInit, readWord_outside (by omega)]
      rfl
    refine ⟨room, fun magic => ?_⟩
    have init := inside.init
    rw [rbSoftconfigInit_eq magic] at init
    have tags : ∀ attr ∈ scAttrs k.soc, ¬Outside (placeTag k conf attr) := fun attr mem lost =>
      init (outside_bind_iff.mpr
        (.inl ((outside_mapM_iff fun _ _ => placeTag_ne_error).mpr ⟨attr, mem, lost⟩)))
    simp only [outside_placeTag_iff] at tags
    have first : (⟨0x02, "boot_delay", .bootdelays⟩ : Attr) ∈ scAttrs k.soc := by simp [scAttrs]
    have enough : 8 ≤ conf.length := by
      by_contra short
      refine tags _ first ?_
      rw [locate, if_pos (by omega)]
      rfl
    refine ⟨enough, fun attr mem => ?_, fun attr mem ofs len leads => ?_⟩
    · by_contra lost
      exact tags attr mem ((outside_locate_iff enough (scAttrs_known _ attr mem)).mpr lost)
    · have place :=
        (locate_eq_some_iff enough (scAttrs_known _ attr mem)).mpr ⟨ofs, len, leads, rfl⟩
      obtain ⟨attrs, each⟩ := mapM_returns (fun _ _ => placeTag_ne_error)
        fun attr mem => outside_placeTag_iff.not.mpr (tags attr mem)
      have started := rbSoftconfigInit_eq magic
      rw [each] at started
      obtain ⟨placed, there, found⟩ := (mapM_ok each).2 attr mem
      rw [placeTag_located place] at found
      cases found
      exact inside.published _ started _ there
  · rintro ⟨room, sound⟩
    by_cases magic : (readWord k.endian conf 0 : Checked Errno Nat) = .ok magicSoft
    · obtain ⟨enough, search, named⟩ := sound magic
      constructor
      · rw [rbSoftconfigInit_eq magic]
        intro lost
        rcases outside_bind_iff.mp lost with lost | ⟨attrs, -, lost⟩
        · obtain ⟨attr, mem, lost⟩ := (outside_mapM_iff fun _ _ => placeTag_ne_error).mp lost
          rw [outside_placeTag_iff, outside_locate_iff enough (scAttrs_known _ attr mem)] at lost
          exact lost (search attr mem)
        · exact not_outside_ok lost
      · intro s started placed mem
        rw [rbSoftconfigInit_eq magic] at started
        obtain ⟨attrs, each, same⟩ := bind_eq_ok_iff.mp started
        cases same
        obtain ⟨attr, known, found⟩ := (mapM_ok each).1 placed mem
        rcases placeTag_ok found with none | place
        · omega
        · obtain ⟨ofs, len, leads, same⟩ :=
            (locate_eq_some_iff enough (scAttrs_known _ attr known)).mp place
          rw [Prod.mk.injEq] at same
          rw [same.1, same.2]
          exact named attr known ofs len leads
    · have stops := rbSoftconfigInit_other room magic
      constructor
      · rw [stops]
        exact not_outside_error
      · intro s started
        rw [stops] at started
        cases started

end Soft

/-- A machine whose decompressor finds every input too long. -/
def bare : Machine := ⟨.little, false, fun _ _ => (4, []), [], fun _ => 0⟩

/-- A hard configuration with one node and four bytes. -/
def oneTag (id len : UInt8) : List UInt8 := [0x48, 0x61, 0x72, 0x64, id, 0, len, 0, 1, 2, 3, 4]

theorem oneTag_magic (id len : UInt8) :
    (readWord .little (oneTag id len) 0 : Checked Errno Nat) = .ok magicHard := by
  simp [readWord, oneTag, Endian.number, magicHard]

theorem oneTag_node (id len : UInt8) :
    (readWord .little ((oneTag id len).drop 4) 0 : Checked Errno Nat) =
      .ok (id.toNat + 2 ^ 16 * len.toNat) := by
  simp [readWord, oneTag, Endian.number]
  omega

theorem oneTag_leads {id len : UInt8} (some : 0 < id.toNat) :
    Leads .little ((oneTag id len).drop 4) 8 id.toNat 0 4 len.toNat := by
  have small := id.toNat_lt
  have here : Leads .little ((oneTag id len).drop 4) 8 id.toNat 0 4
      ((id.toNat + 2 ^ 16 * len.toNat) / 2 ^ 16) :=
    .here (oneTag_node id len) (by omega) (by omega) (by decide)
  have length : (id.toNat + 2 ^ 16 * len.toNat) / 2 ^ 16 = len.toNat := by omega
  rwa [length] at here

theorem oneTag_on {id : UInt8} {node : Nat}
    (word : (readWord .little ((oneTag id 4).drop 4) 0 : Checked Errno Nat) = .ok node) :
    0 + 4 + alignU16 (node / 2 ^ 16) = 8 := by
  have small := id.toNat_lt
  rw [oneTag_node, Except.ok.injEq] at word
  rw [← word, show (id.toNat + 2 ^ 16 * (4 : UInt8).toNat) / 2 ^ 16 = 4 by
    rw [show (4 : UInt8).toNat = 4 from rfl]
    omega]
  rfl

/-- A node with a payload of four bytes is the only place that a search leads to. -/
theorem oneTag_four {id : UInt8} {tagId ofs len : Nat}
    (leads : Leads .little ((oneTag id 4).drop 4) 8 tagId 0 ofs len) :
    tagId = id.toNat ∧ ofs = 4 ∧ len = 4 := by
  have small := id.toNat_lt
  have four : (4 : UInt8).toNat = 4 := rfl
  cases leads with
  | here word notNull same inside =>
    rw [oneTag_node, Except.ok.injEq, four] at word
    omega
  | on inside word notNull other later =>
    rw [oneTag_on word] at later
    cases later with
    | here word notNull same inside => omega
    | on inside word notNull other later => omega

theorem oneTag_search (id : UInt8) (tagId : Nat) : SearchInside .little (oneTag id 4) 4 tagId := by
  intro out
  have size : ((oneTag id 4).drop 4).length = 8 := rfl
  cases out with
  | here inside outside => omega
  | on inside word notNull other later =>
    rw [oneTag_on word] at later
    cases later with
    | here inside outside => exact Nat.lt_irrefl 8 inside
    | on inside word notNull other later => exact Nat.lt_irrefl 8 inside

theorem bare_respects (input : List UInt8) (n : Nat) : (bare.lzo input n).2.length ≤ n :=
  Nat.zero_le n

end FirewallCore.Mikrotik
