import FirewallCore.Mtd.Bmt

/-!
What reads deliver over whole runs of the bad block management, with operations of the
chip that fail at any time.

A remapping loses data in three ways: the copy stops at the first page that cannot be
read or written, and nobody looks at its result; after a failed write it copies the pages
in front of the write only; and where it moves the places of other blocks, as the back end
`bbt` does, their data stay behind. `Spares` says that it does none of this to data that
are there. The invariant is that every page that was written is found at its place.
-/

namespace FirewallCore.Mtd.Bmt

open FirewallCore.Lib

variable {β δ : Type} (be : BackEnd β δ) (g : Geometry δ)

/-- What the place of a logical page holds. -/
def State.stored (s : State β δ) (page : Nat) : δ :=
  s.pages (be.place s.back (page / g.pages)) (page % g.pages)

/-- The pages of the round of a write. -/
def inChunk (dst : Nat) (data : List δ) (page : Nat) : Prop :=
  dst ≤ page ∧ page < dst + chunk g dst data.length

/-- The pages that a write is about to try again. -/
def pending : Call δ → Nat → Prop
  | .write dst data retries, page => retries ≠ 0 ∧ inChunk g dst data page
  | _, _ => False

/-- The block has a page with data. -/
def HoldsData (s : State β δ) (block : Nat) : Prop :=
  ∃ page, page / g.pages = block ∧ (s.written page).isSome

/-- No other block with data has the place of the block. -/
def Alone (s : State β δ) (block : Nat) : Prop :=
  ∀ other, other ≠ block → HoldsData g s other →
    be.place s.back other ≠ be.place s.back block

/-- A remapping that loses nothing: the data of the block, but for what is written again,
are copied to its new place, and those of other blocks stay where they are looked for. -/
structure Spares (env : RemapEnv δ) (s : State β δ) (block mapped copyLen : Nat)
    (again : Nat → Prop) (r : Remapped β) : Prop where
  own : ∀ page, page / g.pages = block → (s.written page).isSome → ¬ again page →
    be.place r.back block = r.newBlock ∧ r.newBlock ≠ mapped ∧ r.newBlock ∉ r.after ∧
      mapped ∉ r.before ∧ page % g.pages < copyLen ∧ ∀ i ≤ page % g.pages, env.copy i = .copied
  others : ∀ other, other ≠ block → HoldsData g s other →
    be.place r.back other = be.place s.back other ∧
      be.place s.back other ≠ r.newBlock ∧
      be.place s.back other ∉ r.before ∧ be.place s.back other ∉ r.after

/-- The remapping of a block, if there is one, loses nothing. -/
def Keeps (env : RemapEnv δ) (s : State β δ) (block copyLen : Nat) (again : Nat → Prop) : Prop :=
  ∀ r, be.remapBlock env s.back block (be.place s.back block) = some (some r) →
    Spares be g env s block (be.place s.back block) copyLen again r

/-- A round of a read: it remaps nothing, or loses nothing by it. -/
def ReadGuard (io : Round δ) (s : State β δ) (page : Nat) : Prop :=
  (io.read = .error ∨ ∃ n, io.read = .bitflips n ∧ g.threshold ≠ 0 ∧ g.threshold ≤ n) →
    Keeps be g io.remap s (page / g.pages) g.pages fun _ => False

/-- A round of a write: it writes to no data of another block; if it fails, the remapping
loses nothing but what is written again, and nothing is lost where it is not. -/
def WriteGuard (io : Round δ) (s : State β δ) (dst : Nat) (data : List δ) (retries : Nat) : Prop :=
  (be.getMappingBlock s.back (dst / g.pages) < 0 → retries ≠ 0 →
    ∀ page, inChunk g dst data page → s.written page = none) ∧
  Alone be g s (dst / g.pages) ∧ (io.writeFails.isSome →
    Keeps be g io.remap s (dst / g.pages) (dst % g.pages) (inChunk g dst data) ∧
      (be.remapBlock io.remap s.back (dst / g.pages) (be.place s.back (dst / g.pages))
          = some none ∨ 10 ≤ retries → ∀ page, inChunk g dst data page → s.written page = none))

/-- A round of an erasure: it erases no data of another block, and remaps none. -/
def EraseGuard (io : Round δ) (s : State β δ) (block : Nat) : Prop :=
  Alone be g s block ∧ (io.eraseFails.isSome →
    Keeps be g io.remap s block 0 fun page => page / g.pages = block)

/-- The condition on a step. -/
def Guard (s : State β δ) (a : Action δ) : Prop :=
  match s.call, a with
  | .read start len got .., .round io => got.length < len → ReadGuard be g io s (start + got.length)
  | .write dst data retries, .round io => data ≠ [] → WriteGuard be g io s dst data retries
  | .erase block count _, .round io => count ≠ 0 → EraseGuard be g io s block
  | _, _ => True

/-! ### Copies -/

theorem nandCopy_other {copy : Nat → CopyResult δ} {dest src b : Nat} (other : b ≠ dest)
    (n i : Nat) (pages : Pages δ) : nandCopy copy dest src n i pages b = pages b := by
  induction n generalizing i pages with
  | zero => rfl
  | succ n ih =>
    rw [nandCopy]
    cases copy i with
    | copied => exact (ih _ _).trans (by rw [Function.update_of_ne other])
    | unreadable => rfl
    | notWritten left => exact Function.update_of_ne other _ _

theorem nandCopy_behind {copy : Nat → CopyResult δ} {dest src n i j : Nat} (pages : Pages δ)
    (behind : j < i) : nandCopy copy dest src n i pages dest j = pages dest j := by
  have other : j ≠ i := by omega
  induction n generalizing i pages with
  | zero => rfl
  | succ n ih =>
    rw [nandCopy]
    cases copy i with
    | copied =>
      refine (ih _ (by omega) (by omega)).trans ?_
      rw [Function.update_self, Function.update_of_ne other]
    | unreadable => rfl
    | notWritten left => simp [other]

/-- The copy reaches a page if all the pages up to it are copied. -/
theorem nandCopy_page {copy : Nat → CopyResult δ} {dest src n i j : Nat} (other : src ≠ dest)
    (pages : Pages δ) (after : i ≤ j) (before : j < i + n)
    (reached : ∀ k, i ≤ k → k ≤ j → copy k = .copied) :
    nandCopy copy dest src n i pages dest j = pages src j := by
  induction n generalizing i pages with
  | zero => omega
  | succ n ih =>
    rw [nandCopy, reached i le_rfl after]
    dsimp only
    by_cases here : i = j
    · subst here
      rw [nandCopy_behind _ (by omega), Function.update_self, Function.update_self]
    · rw [ih _ (by omega) (by omega) fun k low high => reached k (by omega) high,
        Function.update_of_ne other]

section Remapping

variable {be g} {r : Remapped β} {env : RemapEnv δ} {mapped copyLen b : Nat} {pages : Pages δ}

theorem fill_other {blank : δ} (fresh : b ≠ r.newBlock) (before : b ∉ r.before)
    (after : b ∉ r.after) : r.fill blank env mapped copyLen pages b = pages b := by
  simp only [Remapped.fill, writeTables, after, if_false, nandCopy_other fresh, eraseBlock,
    Function.update_of_ne fresh, before]

theorem fill_page {blank : δ} {i : Nat} (fresh : r.newBlock ≠ mapped) (after : r.newBlock ∉ r.after)
    (before : mapped ∉ r.before) (inside : i < copyLen) (copied : ∀ k ≤ i, env.copy k = .copied) :
    r.fill blank env mapped copyLen pages r.newBlock i = pages mapped i := by
  simp only [Remapped.fill, writeTables, after, if_false]
  rw [nandCopy_page fresh.symm _ (by omega) (by omega) fun k _ high => copied k high]
  simp only [eraseBlock, Function.update_of_ne fresh.symm, writeTables, before, if_false]

/-- A remapping that keeps the data leaves each page with what it held, but for those that
are written again. -/
theorem remap_stored {s s' : State β δ} {block : Nat} {again : Nat → Prop} {done : Bool}
    (keeps : Keeps be g env s block copyLen again)
    (taken : remap be g env s block (be.place s.back block) copyLen = some (s', done)) :
    s'.written = s.written ∧ s'.call = s.call ∧
      (done = false → be.remapBlock env s.back block (be.place s.back block) = some none ∧
        s' = s) ∧
      ∀ page, (s.written page).isSome → ¬ (page / g.pages = block ∧ again page) →
        s'.stored be g page = s.stored be g page := by
  unfold remap at taken
  split at taken
  · cases taken
  · rename_i refused
    cases taken
    exact ⟨rfl, rfl, fun _ => ⟨refused, rfl⟩, fun _ _ _ => rfl⟩
  · rename_i r planned
    cases taken
    refine ⟨rfl, rfl, by simp, ?_⟩
    intro page data kept
    have spares := keeps r planned
    by_cases own : page / g.pages = block
    · have plain : ¬ again page := fun redone => kept ⟨own, redone⟩
      obtain ⟨place, fresh, after, before, inside, copied⟩ := spares.own page own data plain
      simp only [State.stored, own, place]
      exact fill_page fresh after before inside copied
    · obtain ⟨place, fresh, before, after⟩ := spares.others _ own ⟨page, rfl, data⟩
      simp only [State.stored, place]
      rw [fill_other fresh before after]

/-- Whether the data are kept does not depend on the contents of the pages. -/
theorem Keeps.withPages {s : State β δ} {block : Nat} {again : Nat → Prop}
    (keeps : Keeps be g env s block copyLen again) (pages : Pages δ) :
    Keeps be g env { s with pages := pages } block copyLen again := by
  intro r planned
  obtain ⟨own, others⟩ := keeps r planned
  exact ⟨own, others⟩

/-- Nor on data of the block itself that are all given up. -/
theorem Keeps.givenUp {s : State β δ} {block : Nat}
    (keeps : Keeps be g env s block copyLen fun page => page / g.pages = block) (pages : Pages δ) :
    Keeps be g env { s with
      pages := pages
      written := fun page => if page / g.pages = block then none else s.written page } block copyLen
      fun page => page / g.pages = block := by
  intro r planned
  constructor
  · intro page own _ other
    exact absurd own other
  · rintro other apart ⟨page, rfl, known⟩
    refine (keeps r planned).others _ apart ⟨page, rfl, ?_⟩
    simpa [apart] using known

end Remapping

/-! ### The rounds -/

/-- A round stays within a block. -/
theorem chunk_place {dst page : Nat} (len : Nat) (after : dst ≤ page) (before : page < dst + chunk g dst len) :
    page / g.pages = dst / g.pages ∧ page % g.pages = dst % g.pages + (page - dst) := by
  obtain ⟨k, rfl⟩ := Nat.exists_eq_add_of_le after
  have within : dst % g.pages + k < g.pages := by
    have rest := Nat.mod_lt dst g.positive
    have small : chunk g dst len ≤ g.pages - dst % g.pages := Nat.min_le_left _ _
    omega
  have split' : dst + k = dst % g.pages + k + g.pages * (dst / g.pages) := by
    have whole := Nat.mod_add_div dst g.pages
    omega
  rw [split', Nat.add_mul_div_left _ _ g.positive, Nat.add_mul_mod_self_left,
    Nat.div_eq_of_lt within, Nat.mod_eq_of_lt within]
  omega

/-- Pages of a block and a distance in it. -/
theorem page_of_place {dst page : Nat} (own : page / g.pages = dst / g.pages)
    (after : dst % g.pages ≤ page % g.pages) :
    page = dst + (page % g.pages - dst % g.pages) := by
  have first := Nat.mod_add_div dst g.pages
  have second := Nat.mod_add_div page g.pages
  rw [own] at second
  omega

/-- What holds throughout a run: what was written is found, and so a read under way has
found it. -/
structure Inv (s : State β δ) : Prop where
  holds : ∀ page d, s.written page = some d → ¬ pending g s.call page → s.stored be g page = d
  got : ∀ start len got retries failed flips,
    s.call = .read start len got retries failed flips →
      ∀ k d, k < got.length → s.written (start + k) = some d → got[k]? = some d

section Rounds

variable {be g} {s s' : State β δ} {io : Round δ} {answer : Answer δ}

/-- A round of a read finds what was written. -/
theorem readPages_found (holds : ∀ page d, s.written page = some d → s.stored be g page = d)
    {start len : Nat} {got : List δ}
    (before : ∀ k d, k < got.length → s.written (start + k) = some d → got[k]? = some d)
    {k : Nat} {d : δ}
    (inside : k < (got ++ readPages s.pages
      (be.place s.back ((start + got.length) / g.pages)) ((start + got.length) % g.pages)
      (chunk g (start + got.length) (len - got.length))).length)
    (data : s.written (start + k) = some d) :
    (got ++ readPages s.pages (be.place s.back ((start + got.length) / g.pages))
      ((start + got.length) % g.pages) (chunk g (start + got.length) (len - got.length)))[k]?
        = some d := by
  rw [List.length_append, readPages, List.length_map, List.length_range] at inside
  by_cases old : k < got.length
  · rw [List.getElem?_append_left old]
    exact before k d old data
  · rw [List.getElem?_append_right (by omega), readPages, List.getElem?_map,
      List.getElem?_range (by omega), Option.map_some]
    obtain ⟨block, offset⟩ := chunk_place g (len - got.length)
      (by omega : start + got.length ≤ start + k) (by omega)
    have stored := holds _ _ data
    rw [State.stored, block, offset] at stored
    rw [← stored]
    congr 3
    omega

theorem Inv.readRound {start len : Nat} {got : List δ} {retries flips : Nat} {failed : Bool}
    (inv : Inv be g s) (call : s.call = .read start len got retries failed flips)
    (guard : got.length < len → ReadGuard be g io s (start + got.length))
    (taken : readRound be g io s start len got retries failed flips = some (s', answer)) :
    Inv be g s' := by
  have holds : ∀ page d, s.written page = some d → s.stored be g page = d := by
    intro page d data
    refine inv.holds page d data ?_
    rw [call]
    exact id
  have before := inv.got _ _ _ _ _ _ call
  unfold Bmt.readRound at taken
  split at taken
  · cases taken
    exact ⟨fun page d data _ => holds page d data, by simp⟩
  rename_i more
  have guard := guard (not_le.mp more)
  split at taken
  · cases taken
    exact ⟨fun page d data _ => holds page d data, by simp⟩
  dsimp only at taken
  split at taken
  · -- The round failed; the block is remapped, and the round is tried again or not.
    rename_i result
    split at taken
    · cases taken
    rename_i s₁ done remapped
    obtain ⟨written, -, -, stored⟩ := remap_stored (guard (.inl result)) remapped
    have holds' : ∀ page d, s₁.written page = some d → s₁.stored be g page = d := by
      intro page d data
      rw [written] at data
      rw [stored page (by simp [data]) (by simp)]
      exact holds page d data
    split at taken
    · cases taken
      refine ⟨fun page d data _ => holds' page d data, ?_⟩
      rintro _ _ _ _ _ _ ⟨⟩ k d inside data
      exact before k d inside (written ▸ data)
    · cases taken
      exact ⟨fun page d data _ => holds' page d data, by simp⟩
  · cases taken
    refine ⟨fun page d data _ => holds page d data, ?_⟩
    rintro _ _ _ _ _ _ ⟨⟩ k d inside data
    exact readPages_found holds before inside data
  · rename_i n result
    split at taken
    · rename_i many
      split at taken
      · cases taken
      rename_i s₁ done remapped
      obtain ⟨written, -, -, stored⟩ :=
        remap_stored (guard (.inr ⟨n, result, many.1, many.2⟩)) remapped
      cases taken
      constructor
      · intro page d data _
        have data : s₁.written page = some d := data
        rw [written] at data
        have same := stored page (by simp [data]) (by simp)
        exact same.trans (holds page d data)
      · rintro _ _ _ _ _ _ ⟨⟩ k d inside data
        exact readPages_found holds before inside (written ▸ data)
    · cases taken
      refine ⟨fun page d data _ => holds page d data, ?_⟩
      rintro _ _ _ _ _ _ ⟨⟩ k d inside data
      exact readPages_found holds before inside data

/-- A page of the block of a write that is not among its pages. -/
theorem not_inChunk_place {dst page : Nat} {data : List δ} (own : page / g.pages = dst / g.pages)
    (outside : ¬ inChunk g dst data page) :
    ¬ (dst % g.pages ≤ page % g.pages ∧
      page % g.pages < dst % g.pages + chunk g dst data.length) := by
  rintro ⟨after, before⟩
  have place := page_of_place g own after
  exact outside ⟨by omega, by omega⟩

/-- A change of the place of a block leaves the data of the others. -/
theorem stored_other {block page : Nat} {t : State β δ} (alone : Alone be g s block)
    (known : (s.written page).isSome) (other : page / g.pages ≠ block) (back : t.back = s.back)
    (pages : ∀ b, b ≠ be.place s.back block → t.pages b = s.pages b) :
    t.stored be g page = s.stored be g page := by
  rw [State.stored, back, pages _ (alone _ other ⟨page, rfl, known⟩), State.stored]

/-- A round of a write, successful or not, leaves the data of all the other pages. -/
theorem stored_outside {dst page : Nat} {data : List δ} {t : State β δ}
    (alone : Alone be g s (dst / g.pages)) (known : (s.written page).isSome)
    (outside : ¬ inChunk g dst data page) (back : t.back = s.back)
    (pages : ∀ b, b ≠ be.place s.back (dst / g.pages) → t.pages b = s.pages b)
    (same : ∀ i, ¬ (dst % g.pages ≤ i ∧ i < dst % g.pages + chunk g dst data.length) →
      t.pages (be.place s.back (dst / g.pages)) i =
        s.pages (be.place s.back (dst / g.pages)) i) :
    t.stored be g page = s.stored be g page := by
  by_cases own : page / g.pages = dst / g.pages
  · rw [State.stored, back, own, same _ (not_inChunk_place own outside), State.stored, own]
  · exact stored_other alone known own back pages

theorem writePages_outside {pages : Pages δ} {block offset i n : Nat} {contents : List δ}
    (size : contents.length ≤ n) (away : ¬ (offset ≤ i ∧ i < offset + n)) :
    writePages pages block offset contents block i = pages block i := by
  rw [writePages, Function.update_self]
  split
  · rw [List.getD_eq_getElem?_getD, List.getElem?_eq_none (by omega), Option.getD_none]
  · rfl

theorem spoilPages_outside {pages : Pages δ} {block offset i n : Nat} {left : Nat → δ}
    (away : ¬ (offset ≤ i ∧ i < offset + n)) :
    spoilPages pages block offset n left block i = pages block i := by
  rw [spoilPages, Function.update_self, if_neg away]

theorem Inv.writeRound {dst : Nat} {data : List δ} {retries : Nat} (inv : Inv be g s)
    (call : s.call = .write dst data retries)
    (guard : data ≠ [] → WriteGuard be g io s dst data retries)
    (taken : writeRound be g io s dst data retries = some (s', answer)) : Inv be g s' := by
  have holds : ∀ page d, s.written page = some d → ¬ inChunk g dst data page →
      s.stored be g page = d := by
    intro page d known outside
    refine inv.holds page d known ?_
    rw [call]
    exact fun waiting => outside waiting.2
  unfold Bmt.writeRound at taken
  split at taken
  · rename_i nothing
    cases taken
    refine ⟨fun page d known _ => holds page d known ?_, by simp⟩
    rintro ⟨after, before⟩
    simp only [nothing, chunk, List.length_nil, Nat.min_zero] at before
    omega
  rename_i some'
  obtain ⟨nowhere, alone, guard⟩ := guard some'
  split at taken
  · rename_i negative
    cases taken
    refine ⟨fun page d known _ => inv.holds page d known ?_, by simp⟩
    rw [call]
    rintro ⟨again, inside⟩
    rw [nowhere negative again page inside] at known
    cases known
  dsimp only at taken
  split at taken
  · cases taken
    refine ⟨?_, by simp⟩
    intro page d known _
    simp only at known
    split at known
    · -- A page of this round.
      rename_i inside
      obtain ⟨block, offset⟩ := chunk_place g data.length inside.1 inside.2
      have read : (data.take (chunk g dst data.length))[page - dst]? = some d := by
        rw [List.getElem?_take_of_lt (by omega), known]
      simp only [State.stored, block, offset, writePages, Function.update_self,
        Nat.le_add_right, if_true, Nat.add_sub_cancel_left, List.getD_eq_getElem?_getD, read,
        Option.getD_some]
    · rename_i outside
      refine Eq.trans (stored_outside alone (by simp [known]) outside ?_ ?_ ?_)
        (holds page d known outside)
      · rfl
      · exact fun b apart => Function.update_of_ne apart _ _
      · exact fun i away => writePages_outside (List.length_take_le _ _) away
  · rename_i left fails
    obtain ⟨keeps, unwritten⟩ := guard (by simp [fails])
    split at taken
    · cases taken
    rename_i s₁ done remapped
    -- The failed write spoils its own pages only, and the remapping keeps the others.
    obtain ⟨written, -, refused, stored⟩ := remap_stored (keeps.withPages _) remapped
    have written : s₁.written = s.written := written
    have holds' : ∀ page d, s₁.written page = some d → ¬ inChunk g dst data page →
        s₁.stored be g page = d := by
      intro page d known outside
      rw [written] at known
      refine (stored page (by simp [known]) fun redone => outside redone.2).trans ?_
      refine Eq.trans (stored_outside alone (by simp [known]) outside ?_ ?_ ?_)
        (holds page d known outside)
      · rfl
      · exact fun b apart => Function.update_of_ne apart _ _
      · exact fun i away => spoilPages_outside away
    split at taken
    · cases taken
      refine ⟨fun page d known settled => holds' page d known fun inside => settled ⟨?_, inside⟩, by simp⟩
      simp
    · rename_i exhausted
      cases taken
      refine ⟨fun page d known _ => holds' page d known fun inside => ?_, by simp⟩
      have known : s₁.written page = some d := known
      rw [written] at known
      have final : be.remapBlock io.remap s.back (dst / g.pages)
          (be.place s.back (dst / g.pages)) = some none ∨ 10 ≤ retries := by
        cases done with
        | false => exact .inl (refused rfl).1
        | true => exact .inr (by simpa using exhausted)
      simp [unwritten final page inside] at known

theorem Inv.eraseRound {block count retries : Nat} (inv : Inv be g s)
    (call : s.call = .erase block count retries)
    (guard : count ≠ 0 → EraseGuard be g io s block)
    (taken : eraseRound be g io s block count retries = some (s', answer)) : Inv be g s' := by
  have holds : ∀ page d, s.written page = some d → s.stored be g page = d := by
    intro page d known
    refine inv.holds page d known ?_
    rw [call]
    exact id
  cases count with
  | zero =>
    cases taken
    exact ⟨fun page d known _ => holds page d known, by simp⟩
  | succ count =>
    obtain ⟨alone, guard⟩ := guard (by simp)
    -- The block has no data any more, and no other one has its place.
    have erased : ∀ (t : State β δ) page d, s.written page = some d → page / g.pages ≠ block →
        t.back = s.back →
        t.pages = eraseBlock g.blank io.eraseFails s.pages (be.place s.back block) →
        t.stored be g page = d := by
      intro t page d known other back pages
      refine (stored_other alone (by simp [known]) other back ?_).trans (holds page d known)
      intro b apart
      rw [pages, eraseBlock, Function.update_of_ne apart]
    simp only [Bmt.eraseRound] at taken
    split at taken
    · cases taken
      exact ⟨fun page d known _ => holds page d known, by simp⟩
    split at taken
    · cases taken
      refine ⟨?_, by simp⟩
      intro page d known _
      simp only at known
      split at known
      · cases known
      · rename_i other
        apply erased _ page d known other
        · rfl
        · rfl
    · rename_i left fails
      split at taken
      · cases taken
      rename_i s₁ done remapped
      have keeps := (guard (by simp [fails])).givenUp (eraseBlock g.blank io.eraseFails s.pages
        (be.place s.back block))
      obtain ⟨written, -, -, stored⟩ := remap_stored keeps remapped
      have holds' : ∀ page d, s₁.written page = some d → s₁.stored be g page = d := by
        intro page d known
        rw [written] at known
        simp only at known
        split at known
        · cases known
        · rename_i other
          rw [stored page (by simp [other, known]) fun redone => other redone.1]
          apply erased _ page d known other
          · rfl
          · rfl
      split at taken
      all_goals
        cases taken
        exact ⟨fun page d known _ => holds' page d known, by simp⟩

end Rounds

/-! ### Runs -/

section Runs

variable {be g} {s s' : State β δ} {a : Action δ} {answer : Answer δ}

theorem Inv.step (inv : Inv be g s) (guard : Guard be g s a)
    (taken : step be g s a = some (s', answer)) : Inv be g s' := by
  unfold Bmt.step at taken
  split at taken
  case h_1 idle =>
    cases taken
    refine ⟨fun page d known _ => inv.holds page d known (by rw [idle]; exact id), ?_⟩
    rintro _ _ _ _ _ _ ⟨⟩ k d inside
    simp at inside
  case h_2 idle =>
    cases taken
    refine ⟨fun page d known _ => inv.holds page d known (by rw [idle]; exact id), by simp⟩
  case h_3 idle =>
    cases taken
    exact ⟨fun page d known _ => inv.holds page d known (by rw [idle]; exact id), by simp⟩
  case h_4 call =>
    simp only [Guard, call] at guard
    exact inv.readRound call guard taken
  case h_5 call =>
    simp only [Guard, call] at guard
    exact inv.writeRound call guard taken
  case h_6 call =>
    simp only [Guard, call] at guard
    exact inv.eraseRound call guard taken
  case h_7 => cases taken

/-- A read returns a value that is not negative at the end of its loop. -/
theorem readRound_returns {io : Round δ} {start len retries flips : Nat} {got : List δ}
    {failed : Bool} {first len' flips' : Nat} {got' : List δ}
    (taken : readRound be g io s start len got retries failed flips =
      some (s', .read first len' (some flips') got')) :
    first = start ∧ len' = len ∧ got' = got ∧ len ≤ got.length := by
  unfold readRound at taken
  split at taken
  · rename_i enough
    simp only [Option.some.injEq, Prod.mk.injEq, Answer.read.injEq] at taken
    obtain ⟨-, rfl, rfl, -, rfl⟩ := taken
    exact ⟨rfl, rfl, rfl, enough⟩
  · split at taken
    · cases taken
    dsimp only at taken
    split at taken
    · split at taken
      · cases taken
      · split at taken
        all_goals cases taken
    · cases taken
    · split at taken
      · split at taken
        all_goals cases taken
      · cases taken

theorem writeRound_returns {io : Round δ} {dst retries first len : Nat} {data got : List δ}
    {ret : Option Nat} :
    writeRound be g io s dst data retries ≠ some (s', .read first len ret got) := by
  intro taken
  unfold writeRound at taken
  split at taken
  · cases taken
  · split at taken
    · cases taken
    dsimp only at taken
    split at taken
    · cases taken
    · split at taken
      · cases taken
      · split at taken
        all_goals cases taken

theorem eraseRound_returns {io : Round δ} {block count retries first len : Nat} {got : List δ}
    {ret : Option Nat} :
    eraseRound be g io s block count retries ≠ some (s', .read first len ret got) := by
  intro taken
  cases count with
  | zero => cases taken
  | succ count =>
    simp only [eraseRound] at taken
    split at taken
    · cases taken
    split at taken
    · cases taken
    · split at taken
      · cases taken
      · split at taken
        all_goals cases taken

end Runs

/-- Every read that returns a value that is not negative, in every run whose steps meet
the condition, delivers what was last written to each page. -/
def Delivers : Prop :=
  ∀ (start s s' : State β δ) (a : Action δ) (first len flips : Nat) (got : List δ),
    start.call = .idle → (∀ page, start.written page = none) →
    Reaches (step be g) (Guard be g) start s →
    step be g s a = some (s', .read first len (some flips) got) →
    ∀ k < len, ∀ d, s.written (first + k) = some d → got[k]? = some d

theorem delivers : Delivers be g := by
  intro start s s' a first len flips got idle empty run taken k inside d known
  have inv : Inv be g s := by
    refine run.invariant (I := Inv be g) ?_ fun x a y b before guard taken => before.step guard taken
    refine ⟨fun page d known _ => ?_, ?_⟩
    · rw [empty page] at known
      cases known
    · rw [idle]
      simp
  unfold step at taken
  split at taken
  case h_4 call =>
    obtain ⟨rfl, rfl, rfl, enough⟩ := readRound_returns taken
    exact inv.got _ _ _ _ _ _ call k d (by omega) known
  case h_5 => exact absurd taken writeRound_returns
  case h_6 => exact absurd taken eraseRound_returns
  all_goals cases taken

/-- A chip of 12 blocks, the last four of which are the pool. -/
def tinyChip : BmtV2.Chip where
  totalBlks := 12
  bmtPoolSize := 4
  tableSize := 16
  blkShift := 1
  remapRange := []
  bad := fun _ => false

/-- Blocks of two pages. -/
def tinyGeometry : Geometry Nat where
  pages := 2
  threshold := 0
  blank := 255
  positive := by decide

/-- The tables as the scan leaves them. -/
def tinyBack : BmtV2.State :=
  ⟨⟨List.range 8 ++ List.replicate 8 0xffff,
      BmtV2.newPool [8, 9, 10, 11] ++ List.replicate 12 ⟨0, .noMapped⟩⟩, 3, fun _ => .other⟩

example : BmtV2.scanBadBlocks tinyChip = some (tinyBack.bbt, tinyBack.bmtBlkIdx) := by
  decide +kernel

def tinyState : State BmtV2.State Nat := { back := tinyBack, pages := fun _ _ => 255 }

/-- Nothing fails. -/
def quietRound : Round Nat where
  remap := { tables := fun _ _ => 0 }

/-- The first page of block 5 cannot be read, and neither when it is to be copied. -/
def unreadableRound : Round Nat where
  read := .error
  remap := { copy := fun _ => .unreadable, tables := fun _ _ => 0 }

/-- Both pages of block 5 are written, and the first is read, which fails. Then the second
one is read. -/
def lossyRun : List (Action Nat) :=
  [.write 10 [1, 2], .round quietRound, .round quietRound,
    .read 10 1, .round unreadableRound, .round quietRound, .round quietRound,
    .read 11 1, .round quietRound]

/-- Where nothing was written, nothing is lost. -/
theorem guard_unwritten {s : State β δ} (empty : ∀ page, s.written page = none) (a : Action δ) :
    Guard be g s a := by
  have free : ∀ block, ¬ HoldsData g s block := by
    rintro block ⟨page, -, known⟩
    simp [empty page] at known
  have keeps : ∀ env block copyLen again, Keeps be g env s block copyLen again := by
    intro env block copyLen again r _
    constructor
    · intro page _ known
      simp [empty page] at known
    · exact fun other _ known => absurd known (free other)
  have alone : ∀ block, Alone be g s block := fun block other _ known => absurd known (free other)
  unfold Guard
  split
  · exact fun _ _ => keeps _ _ _ _
  · exact fun _ => ⟨fun _ _ page _ => empty page, alone _,
      fun _ => ⟨keeps _ _ _ _, fun _ page _ => empty page⟩⟩
  · exact fun _ => ⟨alone _, fun _ => keeps _ _ _ _⟩
  · trivial

/-- A round without a failure is no danger to a read, nor is the end of a write. -/
theorem guard_quiet {s : State β δ} {io : Round δ}
    (call : (∃ dst retries, s.call = .write dst [] retries) ∨
      ∃ start len got retries failed flips, s.call = .read start len got retries failed flips)
    (fine : io.read = .bitflips 0) (off : g.threshold = 0) : Guard be g s (.round io) := by
  obtain ⟨dst, retries, call⟩ | ⟨start, len, got, retries, failed, flips, call⟩ := call
  · simp [Guard, call]
  · simp [Guard, call, ReadGuard, fine, off]

/-- The first attempt to write block 5 fails, and the block is remapped. -/
def failedRound : Round Nat where
  writeFails := some fun _ => 9
  remap := { tables := fun _ _ => 0 }

end FirewallCore.Mtd.Bmt
