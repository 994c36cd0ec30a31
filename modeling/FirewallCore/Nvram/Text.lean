import FirewallCore.Nvram.Nvram
import Mathlib.Data.List.TakeWhile

/-!
The text of the variables: what `nvram_commit` writes of a table, and what `_nvram_rehash` reads of a
text that was written.
-/

namespace FirewallCore.Nvram

open FirewallCore.Lib HashChains

/-! ### Writing -/

/-- The text of tuples. -/
def encodeAll (tuples : List (CStr × CStr)) : List UInt8 := tuples.flatMap encode

/-- The tuples of a chain up to the first one that does not fit into the room. -/
def fitting (room : Nat) : List (CStr × CStr) → List (CStr × CStr)
  | [] => []
  | t :: chain =>
    if (encode t).length ≤ room then t :: fitting (room - (encode t).length) chain else []

/-- The tuples of all chains that are written. -/
def fittingAll (room : Nat) : List (List (CStr × CStr)) → List (CStr × CStr)
  | [] => []
  | chain :: chains =>
    fitting room chain ++ fittingAll (room - (encodeAll (fitting room chain)).length) chains

section Writing

variable {front back bytes : List UInt8} {t : CStr × CStr} {chain tuples : List (CStr × CStr)}
  {chains : List (List (CStr × CStr))} {room stop : Nat}

theorem store_append (fits : bytes.length ≤ back.length) :
    store (front ++ back) front.length bytes = .ok (front ++ bytes ++ back.drop bytes.length) := by
  rw [store, if_pos (by rw [List.length_append]; exact Nat.add_le_add_left fits _), List.take_left,
    List.drop_length_add_append]

@[simp] theorem length_encode : (encode t).length = t.1.length + t.2.length + 2 := by
  simp [encode]
  omega

@[simp] theorem encodeAll_nil : encodeAll [] = [] := rfl

@[simp] theorem encodeAll_cons : encodeAll (t :: tuples) = encode t ++ encodeAll tuples := rfl

@[simp] theorem encodeAll_append {later : List (CStr × CStr)} :
    encodeAll (tuples ++ later) = encodeAll tuples ++ encodeAll later := List.flatMap_append

theorem length_fitting (room : Nat) (chain : List (CStr × CStr)) :
    (encodeAll (fitting room chain)).length ≤ room := by
  induction chain generalizing room with
  | nil => exact Nat.zero_le _
  | cons t chain ih =>
    rw [fitting]
    split
    · rename_i fits
      rw [encodeAll_cons, List.length_append]
      have later := ih (room - (encode t).length)
      omega
    · exact Nat.zero_le _

theorem fitting_sublist : (fitting room chain).Sublist chain := by
  induction chain generalizing room with
  | nil => exact List.Sublist.refl []
  | cons t chain ih =>
    rw [fitting]
    split
    · exact ih.cons_cons t
    · exact List.nil_sublist _

theorem fitting_all (fits : (encodeAll chain).length ≤ room) : fitting room chain = chain := by
  induction chain generalizing room with
  | nil => rfl
  | cons t chain ih =>
    rw [encodeAll_cons, List.length_append] at fits
    rw [fitting, if_pos (by omega), ih (by omega)]

theorem length_fittingAll (room : Nat) (chains : List (List (CStr × CStr))) :
    (encodeAll (fittingAll room chains)).length ≤ room := by
  induction chains generalizing room with
  | nil => exact Nat.zero_le _
  | cons chain chains ih =>
    rw [fittingAll, encodeAll_append, List.length_append]
    have first := length_fitting room chain
    have later := ih (room - (encodeAll (fitting room chain)).length)
    omega

theorem fittingAll_sublist : (fittingAll room chains).Sublist chains.flatten := by
  induction chains generalizing room with
  | nil => exact List.Sublist.refl []
  | cons chain chains ih => exact fitting_sublist.append ih

theorem fittingAll_all (fits : (encodeAll chains.flatten).length ≤ room) :
    fittingAll room chains = chains.flatten := by
  induction chains generalizing room with
  | nil => rfl
  | cons chain chains ih =>
    rw [List.flatten_cons, encodeAll_append, List.length_append] at fits
    rw [fittingAll, fitting_all (by omega), ih (by omega), List.flatten_cons]

theorem writeChain_eq (inside : stop ≤ front.length + back.length) :
    writeChain stop chain (front ++ back, front.length) =
      .ok (front ++ encodeAll (fitting (stop - front.length) chain) ++
        back.drop (encodeAll (fitting (stop - front.length) chain)).length,
          front.length + (encodeAll (fitting (stop - front.length) chain)).length) := by
  induction chain generalizing front back with
  | nil => simp [writeChain, fitting]
  | cons t chain ih =>
    rw [writeChain, fitting]
    dsimp only
    by_cases fits : (encode t).length ≤ stop - front.length
    · rw [if_pos fits, if_neg (by rw [length_encode] at fits; omega)]
      have size : 0 < (encode t).length := by
        rw [length_encode]
        omega
      rw [store_append (by omega)]
      have later := @ih (front ++ encode t) (back.drop (encode t).length)
        (by rw [List.length_append, List.length_drop]; omega)
      rw [List.length_append] at later
      change writeChain stop chain (front ++ encode t ++ back.drop (encode t).length,
        front.length + (encode t).length) = _
      rw [later, encodeAll_cons, List.drop_drop, List.length_append, Nat.sub_sub, List.append_assoc,
        List.append_assoc, List.append_assoc, List.append_assoc, Nat.add_assoc]
    · rw [if_neg fits, if_pos (by rw [length_encode] at fits; omega)]
      simp

theorem writeChains_eq (inside : stop ≤ front.length + back.length) :
    writeChains stop chains (front ++ back, front.length) =
      .ok (front ++ encodeAll (fittingAll (stop - front.length) chains) ++
        back.drop (encodeAll (fittingAll (stop - front.length) chains)).length,
          front.length + (encodeAll (fittingAll (stop - front.length) chains)).length) := by
  induction chains generalizing front back with
  | nil => simp [writeChains, fittingAll]
  | cons chain chains ih =>
    have fits := length_fitting (stop - front.length) chain
    have later := @ih (front ++ encodeAll (fitting (stop - front.length) chain))
      (back.drop (encodeAll (fitting (stop - front.length) chain)).length)
      (by rw [List.length_append, List.length_drop]; omega)
    rw [List.length_append] at later
    rw [writeChains, writeChain_eq inside, fittingAll]
    change writeChains stop chains (_, _) = _
    rw [later, encodeAll_append, List.drop_drop, List.length_append, Nat.sub_sub, List.append_assoc,
      List.append_assoc, List.append_assoc, List.append_assoc, Nat.add_assoc]

end Writing

/-! ### Reading -/

/-- The tuple that is read of a tuple: the name ends at the first equals sign. -/
def resplit (t : CStr × CStr) : CStr × CStr :=
  let line := t.1 ++ equals :: t.2
  (line.takeWhile (· ≠ equals), (line.dropWhile (· ≠ equals)).tail)

/-- A string of C has no NUL. -/
def Terminated (t : CStr × CStr) : Prop := 0 ∉ t.1 ∧ 0 ∉ t.2

section Reading

variable {t : CStr × CStr} {name value rest : List UInt8} {tuples : List (CStr × CStr)} {fuel : Nat}

theorem takeWhile_append_cons {p : UInt8 → Bool} {c : UInt8} {s : List UInt8} (all : ∀ a ∈ s, p a = true)
    (stops : p c = false) : (s ++ c :: rest).takeWhile p = s := by
  rw [List.takeWhile_append_of_pos all, List.takeWhile_cons_of_neg (by simp [stops]), List.append_nil]

theorem resplit_self (plain : equals ∉ t.1) : resplit t = t := by
  have all : ∀ a ∈ t.1, decide (a ≠ equals) = true := fun a member =>
    decide_eq_true fun same => plain (same ▸ member)
  unfold resplit
  dsimp only
  rw [takeWhile_append_cons all (by simp), List.dropWhile_append_of_pos all,
    List.dropWhile_cons_of_neg (by simp), List.tail_cons]

/-- A name that is read has no equals sign. -/
theorem equals_notMem_resplit : equals ∉ (resplit t).1 := fun member =>
  absurd (List.mem_takeWhile_imp member) (by simp)

/-- The line of a tuple is cut at its first equals sign. -/
theorem resplit_line (string : Terminated t) : encode t = encode (resplit t) ∧ Terminated (resplit t) := by
  have line : (t.1 ++ equals :: t.2).takeWhile (· ≠ equals) ++
      (t.1 ++ equals :: t.2).dropWhile (· ≠ equals) = t.1 ++ equals :: t.2 :=
    List.takeWhile_append_dropWhile
  have stops := List.head?_dropWhile_not (· ≠ equals) (t.1 ++ equals :: t.2)
  have clear : 0 ∉ t.1 ++ equals :: t.2 := by
    rw [List.mem_append, List.mem_cons]
    rintro (first | sign | second)
    · exact string.1 first
    · exact absurd sign (by decide)
    · exact string.2 second
  cases rest_def : (t.1 ++ equals :: t.2).dropWhile (· ≠ equals) with
  | nil =>
    rw [List.dropWhile_eq_nil_iff] at rest_def
    exact absurd (rest_def equals (by simp)) (by simp)
  | cons c value =>
    rw [rest_def] at stops line
    obtain rfl : c = equals := by simpa using stops
    have name : (resplit t).1 = (t.1 ++ equals :: t.2).takeWhile (· ≠ equals) := rfl
    have second : (resplit t).2 = value := congrArg List.tail rest_def
    rw [← line] at clear
    refine ⟨?_, ?_, ?_⟩
    · rw [encode, encode, name, second, line]
    · rw [name]
      exact fun member => clear (List.mem_append_left _ member)
    · rw [second]
      exact fun member => clear (List.mem_append_right _ (List.mem_cons_of_mem _ member))

theorem parseText_cons (noEquals : equals ∉ name) (noNul : 0 ∉ name) (noNul' : 0 ∉ value) :
    parseText (fuel + 1) (name ++ equals :: (value ++ 0 :: rest)) =
      (parseText fuel rest).map ((name, value) :: ·) := by
  have all : ∀ a ∈ name, decide (a ≠ equals ∧ a ≠ 0) = true := fun a member =>
    decide_eq_true ⟨fun same => noEquals (same ▸ member), fun same => noNul (same ▸ member)⟩
  have all' : ∀ a ∈ value, decide (a ≠ 0) = true := fun a member =>
    decide_eq_true fun same => noNul' (same ▸ member)
  have cut : (name ++ equals :: (value ++ 0 :: rest)).takeWhile (fun c => c ≠ equals ∧ c ≠ 0) = name :=
    takeWhile_append_cons all (by simp)
  have cut' : (value ++ 0 :: rest).takeWhile (· ≠ 0) = value := takeWhile_append_cons all' (by simp)
  have first : ∃ c text, name ++ equals :: (value ++ 0 :: rest) = c :: text ∧ c ≠ 0 := by
    cases name with
    | nil => exact ⟨_, _, rfl, by decide⟩
    | cons c name => exact ⟨c, _, rfl, fun same => noNul (same ▸ List.mem_cons_self)⟩
  obtain ⟨c, text, split, nonzero⟩ := first
  rw [parseText.eq_def, split]
  dsimp only
  rw [if_neg nonzero, ← split, cut, List.drop_left]
  dsimp only
  rw [if_neg (by decide), cut', List.drop_left]

/-- What has been written of strings is read, up to the first equals sign of each line. -/
theorem parseText_encodeAll (strings : ∀ t ∈ tuples, Terminated t) (enough : tuples.length < fuel) :
    parseText fuel (encodeAll tuples ++ 0 :: rest) = .ok (tuples.map resplit) := by
  induction tuples generalizing fuel with
  | nil =>
    cases fuel with
    | zero => cases enough
    | succ fuel => rfl
  | cons t tuples ih =>
    rw [List.forall_mem_cons] at strings
    cases fuel with
    | zero => cases enough
    | succ fuel =>
      obtain ⟨line, string⟩ := resplit_line strings.1
      have later := ih strings.2 (Nat.lt_of_succ_lt_succ enough)
      have whole : encodeAll (t :: tuples) ++ 0 :: rest = (resplit t).1 ++ equals ::
          ((resplit t).2 ++ 0 :: (encodeAll tuples ++ 0 :: rest)) := by
        rw [encodeAll_cons, line, encode]
        simp
      rw [whole, parseText_cons equals_notMem_resplit string.1 string.2, later]
      rfl

end Reading

end FirewallCore.Nvram
