import FirewallCore.Lib.Strings

/-!
Paths of URLs: percent-decoding and the removal of dot segments.

Decoding follows `decodeURIComponent` of ECMAScript: escapes are the bytes of
UTF-8 sequences, and a malformed sequence is an error. Segments are resolved as
`path.normalize` of Node.js does for relative paths: what leads above the start
is kept.
-/

namespace FirewallCore.Lib.UrlPath

open FirewallCore.Lib

/-! ### Percent-decoding -/

/-- Reads escapes as bytes and leaves other characters. -/
def unescape : List Char → Option (List (Char ⊕ Nat))
  | [] => some []
  | '%' :: a :: b :: rest => do
    let high ← hexVal a
    let low ← hexVal b
    let units ← unescape rest
    some (.inr (16 * high + low) :: units)
  | c :: rest =>
    if c = '%' then none
    else do
      let units ← unescape rest
      some (.inl c :: units)

/-- The character of a UTF-8 sequence: the bits of the leading byte and the bytes behind it, for
a character that needs as many bytes. -/
def scalar (least lead : Nat) (tail : List Nat) : Option Char :=
  let value := tail.foldl (fun value byte => value * 64 + byte % 64) lead
  if tail.all (fun byte => 0x80 ≤ byte && byte < 0xC0) ∧ least ≤ value ∧ value.isValidChar then
    some (Char.ofNat value)
  else none

/-- Decodes the bytes between characters. -/
def decodeUnits : List (Char ⊕ Nat) → Option (List Char)
  | [] => some []
  | .inl c :: rest => do
    let text ← decodeUnits rest
    some (c :: text)
  | .inr x :: rest =>
    if x < 0x80 then do
      let text ← decodeUnits rest
      some (Char.ofNat x :: text)
    else if x < 0xC0 then none
    else if x < 0xE0 then
      match rest with
      | .inr y :: rest => do
        let c ← scalar 0x80 (x % 32) [y]
        let text ← decodeUnits rest
        some (c :: text)
      | _ => none
    else if x < 0xF0 then
      match rest with
      | .inr y :: .inr z :: rest => do
        let c ← scalar 0x800 (x % 16) [y, z]
        let text ← decodeUnits rest
        some (c :: text)
      | _ => none
    else if x < 0xF8 then
      match rest with
      | .inr y :: .inr z :: .inr w :: rest => do
        let c ← scalar 0x10000 (x % 8) [y, z, w]
        let text ← decodeUnits rest
        some (c :: text)
      | _ => none
    else none

/-- `decodeURIComponent`. -/
def decodeURIComponent (text : List Char) : Option (List Char) := (unescape text).bind decodeUnits

/-! ### Segments -/

/-- The name of a file or directory. -/
abbrev Name := List Char

/-- A name that an entry of a directory can have. -/
structure ValidName (name : Name) : Prop where
  nonempty : name ≠ []
  notDot : name ≠ ['.']
  notUp : name ≠ ['.', '.']
  noSlash : '/' ∉ name
  noNull : '\x00' ∉ name

/-- Resolves one more segment; the segments so far are in reverse. -/
def pushSegment (resolved : List Name) (segment : Name) : List Name :=
  if segment = [] ∨ segment = ['.'] then resolved
  else if segment = ['.', '.'] then
    match resolved with
    | [] => [segment]
    | last :: rest => if last = ['.', '.'] then segment :: resolved else rest
  else segment :: resolved

/-- The segments of a relative path, normalised. -/
def normalizeSegments (path : List Char) : List Name :=
  ((path.splitOn '/').foldl pushSegment []).reverse

theorem pushSegment_mem {resolved : List Name} {segment name : Name}
    (member : name ∈ pushSegment resolved segment) :
    name ∈ resolved ∨ name = segment ∧ segment ≠ [] ∧ segment ≠ ['.'] := by
  unfold pushSegment at member
  split at member
  · exact .inl member
  · rename_i kept
    rw [not_or] at kept
    split at member
    · split at member
      · exact .inr ⟨List.mem_singleton.mp member, kept⟩
      · split at member
        · rcases List.mem_cons.mp member with rfl | old
          · exact .inr ⟨rfl, kept⟩
          · exact .inl old
        · exact .inl (List.mem_cons_of_mem _ member)
    · rcases List.mem_cons.mp member with rfl | old
      · exact .inr ⟨rfl, kept⟩
      · exact .inl old

theorem foldl_pushSegment_mem {segments resolved : List Name} {name : Name}
    (member : name ∈ segments.foldl pushSegment resolved) :
    name ∈ resolved ∨ name ∈ segments ∧ name ≠ [] ∧ name ≠ ['.'] := by
  induction segments generalizing resolved with
  | nil => exact .inl member
  | cons segment rest ih =>
    rcases ih member with pushed | ⟨later, kept⟩
    · rcases pushSegment_mem pushed with old | ⟨rfl, kept⟩
      · exact .inl old
      · exact .inr ⟨List.mem_cons_self, kept⟩
    · exact .inr ⟨List.mem_cons_of_mem _ later, kept⟩

/-- A segment consists of characters of the text other than the separator. -/
theorem mem_splitOn {text segment : List Char} (member : segment ∈ text.splitOn '/') :
    ∀ c ∈ segment, c ∈ text ∧ c ≠ '/' := by
  induction text generalizing segment with
  | nil =>
    simp only [List.splitOn_nil, List.mem_singleton] at member
    simp [member]
  | cons a rest ih =>
    have later : ∀ segment ∈ rest.splitOn '/', ∀ c ∈ segment, c ∈ a :: rest ∧ c ≠ '/' :=
      fun segment member c inside => ⟨List.mem_cons_of_mem _ (ih member c inside).1, (ih member c inside).2⟩
    rw [List.splitOn_cons_eq_if_modifyHead] at member
    split at member
    · rcases List.mem_cons.mp member with rfl | old
      · simp
      · exact later segment old
    · rename_i other
      cases segments : rest.splitOn '/' with
      | nil => exact absurd segments (List.splitOn_ne_nil _ _)
      | cons first others =>
        rw [segments] at member later
        rcases List.mem_cons.mp member with rfl | old
        · intro c inside
          rcases List.mem_cons.mp inside with rfl | inside
          · exact ⟨List.mem_cons_self, by simpa using other⟩
          · exact later first List.mem_cons_self c inside
        · exact later segment (List.mem_cons_of_mem _ old)

/-- Normalised segments are names, unless they lead upwards. -/
theorem normalizeSegments_mem {path : List Char} {name : Name}
    (member : name ∈ normalizeSegments path) (noNull : '\x00' ∉ path) (notUp : name ≠ ['.', '.']) :
    ValidName name := by
  rw [normalizeSegments, List.mem_reverse] at member
  rcases foldl_pushSegment_mem member with nothing | ⟨segment, nonempty, notDot⟩
  · exact absurd nothing List.not_mem_nil
  · have chars := mem_splitOn segment
    exact ⟨nonempty, notDot, notUp, fun slash => (chars _ slash).2 rfl,
      fun null => noNull (chars _ null).1⟩

end FirewallCore.Lib.UrlPath
