import FirewallCore.Lib.Strings
import FirewallCore.Dnsforward.Msg

/-!
Legacy DNS rewrites (`filtering/rewrites.go`): which entries of the configuration
answer a question.

`findRewrites` collects the entries whose domain is the host or a wildcard over
it, sorts them by one comparison and cuts the list at the first wildcard. The
comparison looks at CNAMEs before it looks at wildcards, so the wildcard at the
cut need not stand behind the exact entries. `slices.SortFunc` promises a sorted
permutation and no more, which is all that a `SortFunc` carries.
-/

namespace FirewallCore.Filtering

open FirewallCore.Lib FirewallCore.Net FirewallCore.Dnsforward

/-- What `slices.SortFunc` promises for a comparison. Entries that compare equal may
come out in any order. -/
structure SortFunc {α : Type} (cmp : α → α → Int) where
  run : List α → List α
  perm : ∀ l, (run l).Perm l
  sorted : ∀ l, (run l).Pairwise fun a b => cmp a b ≤ 0

/-! ### Entries -/

/-- `LegacyRewrite`. -/
structure LegacyRewrite where
  domain : String
  answer : String
  ip : Addr
  type : Nat
  deriving DecidableEq, Repr

/-- `isWildcard`. -/
def isWildcard (pat : String) : Bool :=
  match utf8 pat with
  | c :: d :: _ => c == 42 && d == 46
  | _ => false

/-- `matchDomainWildcard`. -/
def matchDomainWildcard (host wildcard : String) : Bool :=
  isWildcard wildcard && decide ((utf8 wildcard).drop 1 <:+ utf8 host)

namespace LegacyRewrite

/-- `matchesQType`. -/
def matchesQType (rw : LegacyRewrite) (qt : Nat) : Bool :=
  if rw.type = typeCNAME then true
  else if qt ≠ typeA ∧ qt ≠ typeAAAA then false
  else rw.type = qt || rw.ip = .zero

/-- `normalize`, over `strings.ToLower`. -/
def normalize (toLower : String → String) (rw : LegacyRewrite) : LegacyRewrite :=
  let rw := { rw with domain := toLower rw.domain }
  if rw.answer = "AAAA" then { rw with ip := .zero, type := typeAAAA }
  else if rw.answer = "A" then { rw with ip := .zero, type := typeA }
  else
    match parseAddr rw.answer with
    | none => { rw with type := typeCNAME }
    | some ip => { rw with ip, type := if ip.is4 then typeA else typeAAAA }

/-- `Compare`. -/
def compare (rw b : LegacyRewrite) : Int :=
  if rw.type = typeCNAME ∧ b.type ≠ typeCNAME then -1
  else if rw.type ≠ typeCNAME ∧ b.type = typeCNAME then 1
  else if isWildcard rw.domain = isWildcard b.domain then
    (utf8 b.domain).length - (utf8 rw.domain).length
  else if isWildcard rw.domain then 1
  else -1

end LegacyRewrite

/-! ### Selection -/

/-- The test at the head of the loop of `findRewrites`. -/
def matchesHost (host : String) (e : LegacyRewrite) : Bool :=
  e.domain = host || matchDomainWildcard host e.domain

/-- The first loop of `findRewrites`. -/
def collectRewrites (host : String) (qtype : Nat) :
    List LegacyRewrite → List LegacyRewrite → Bool → List LegacyRewrite × Bool
  | [], rewrites, matched => (rewrites, matched)
  | e :: entries, rewrites, matched =>
    if !matchesHost host e then collectRewrites host qtype entries rewrites matched
    else if e.matchesQType qtype then collectRewrites host qtype entries (rewrites ++ [e]) true
    else collectRewrites host qtype entries rewrites true

/-- The second loop of `findRewrites`. -/
def cutAtWildcard (rewrites : List LegacyRewrite) : List LegacyRewrite :=
  match rewrites.findIdx? fun r => isWildcard r.domain with
  | some i => rewrites.take (max 1 i)
  | none => rewrites

/-- `findRewrites`. -/
def findRewrites (sortFunc : SortFunc LegacyRewrite.compare) (entries : List LegacyRewrite)
    (host : String) (qtype : Nat) : List LegacyRewrite × Bool :=
  let (rewrites, matched) := collectRewrites host qtype entries [] false
  if rewrites.length = 0 then ([], matched)
  else (cutAtWildcard (sortFunc.run rewrites), matched)

/-- The two fields of a result that `setRewriteResult` changes. The reason becomes
`NotFilteredNotFound` at an exception, which is answered by the upstream. -/
structure RewriteResult where
  notFiltered : Bool
  ipList : List Addr
  deriving DecidableEq, Repr

/-- Only the address records of the asked type are looked at. -/
def LegacyRewrite.Counts (rw : LegacyRewrite) (qtype : Nat) : Prop :=
  rw.type = qtype ∧ (qtype = typeA ∨ qtype = typeAAAA)

instance (rw : LegacyRewrite) (qtype : Nat) : Decidable (rw.Counts qtype) :=
  inferInstanceAs (Decidable (_ ∧ _))

/-- `setRewriteResult`. -/
def setRewriteResult (qtype : Nat) : List LegacyRewrite → RewriteResult → RewriteResult
  | [], res => res
  | rw :: rewrites, res =>
    if rw.Counts qtype then
      -- the "A" and "AAAA" exceptions keep what was appended before
      if rw.ip = .zero then { res with notFiltered := true }
      else setRewriteResult qtype rewrites { res with ipList := res.ipList ++ [rw.ip] }
    else setRewriteResult qtype rewrites res

/-- The addresses that a list of rewrites results in. -/
def resultIPs (qtype : Nat) (rewrites : List LegacyRewrite) : List Addr :=
  (setRewriteResult qtype rewrites ⟨false, []⟩).ipList

/-! ### The two loops -/

section Loops

variable {host : String} {qtype : Nat}

/-- An entry that is collected. -/
def applies (host : String) (qtype : Nat) (e : LegacyRewrite) : Bool :=
  matchesHost host e && e.matchesQType qtype

/-- An entry for the host itself that is collected. -/
def appliesExactly (host : String) (qtype : Nat) (e : LegacyRewrite) : Bool :=
  e.domain = host && e.matchesQType qtype

theorem collectRewrites_eq (entries rewrites : List LegacyRewrite) (matched : Bool) :
    collectRewrites host qtype entries rewrites matched =
      (rewrites ++ entries.filter (applies host qtype), matched || entries.any (matchesHost host)) := by
  induction entries generalizing rewrites matched with
  | nil => simp [collectRewrites]
  | cons e entries ih =>
    unfold collectRewrites
    by_cases onHost : matchesHost host e = true
    · by_cases onType : e.matchesQType qtype = true
      · simp [onHost, onType, ih, applies]
      · simp [onHost, onType, ih, applies]
    · simp [onHost, ih, applies]

theorem findRewrites_matched (sortFunc : SortFunc LegacyRewrite.compare) (entries : List LegacyRewrite) :
    (findRewrites sortFunc entries host qtype).2 = entries.any (matchesHost host) := by
  unfold findRewrites
  rw [collectRewrites_eq]
  simp only [List.nil_append, Bool.false_or]
  split <;> rfl

theorem findRewrites_list (sortFunc : SortFunc LegacyRewrite.compare) (entries : List LegacyRewrite) :
    (findRewrites sortFunc entries host qtype).1 =
      cutAtWildcard (sortFunc.run (entries.filter (applies host qtype))) := by
  unfold findRewrites
  rw [collectRewrites_eq]
  simp only [List.nil_append, Bool.false_or]
  split
  case isTrue empty =>
    have none : entries.filter (applies host qtype) = [] := List.eq_nil_of_length_eq_zero empty
    have same : sortFunc.run [] = [] := (sortFunc.perm []).eq_nil
    rw [none, same]
    rfl
  case isFalse => rfl

/-- The cut keeps a leading wildcard alone, and else what stands before the first one. -/
theorem cutAtWildcard_cons (r : LegacyRewrite) (rs : List LegacyRewrite) :
    cutAtWildcard (r :: rs) =
      if isWildcard r.domain then [r] else r :: rs.takeWhile fun r => !isWildcard r.domain := by
  unfold cutAtWildcard
  rw [List.findIdx?_cons]
  by_cases wild : isWildcard r.domain = true
  · simp [wild]
  · simp only [wild, Bool.false_eq_true, if_false]
    simp only [List.takeWhile_eq_take_findIdx_not, Bool.not_not]
    cases at_ : rs.findIdx? fun r => isWildcard r.domain with
    | none =>
      rw [List.findIdx?_eq_none_iff_findIdx_eq.mp at_]
      simp
    | some i =>
      rw [(List.findIdx?_eq_some_iff_findIdx_eq.mp at_).2]
      simp

theorem cutAtWildcard_isPrefix (l : List LegacyRewrite) : ∃ rest, l = cutAtWildcard l ++ rest := by
  unfold cutAtWildcard
  split
  · exact ⟨_, (List.take_append_drop _ l).symm⟩
  · exact ⟨[], (List.append_nil l).symm⟩

theorem setRewriteResult_ipList (rewrites : List LegacyRewrite) (res : RewriteResult) :
    (setRewriteResult qtype rewrites res).ipList = res.ipList ++ resultIPs qtype rewrites := by
  unfold resultIPs
  induction rewrites generalizing res with
  | nil => simp [setRewriteResult]
  | cons rw rewrites ih =>
    unfold setRewriteResult
    split
    · split
      · simp
      · have once := ih ⟨false, [rw.ip]⟩
        rw [ih ⟨res.notFiltered, res.ipList ++ [rw.ip]⟩]
        simp only [List.nil_append, once, List.append_assoc]
    · exact ih res

theorem resultIPs_nil : resultIPs qtype [] = [] := rfl

theorem resultIPs_cons (rw : LegacyRewrite) (rewrites : List LegacyRewrite) :
    resultIPs qtype (rw :: rewrites) =
      if rw.Counts qtype then if rw.ip = .zero then [] else rw.ip :: resultIPs qtype rewrites
      else resultIPs qtype rewrites := by
  conv_lhs => unfold resultIPs setRewriteResult
  split
  · split
    · rfl
    · rw [setRewriteResult_ipList]
      rfl
  · rfl

theorem resultIPs_skip {front : List LegacyRewrite} (skipped : ∀ e ∈ front, ¬e.Counts qtype)
    (rewrites : List LegacyRewrite) :
    resultIPs qtype (front ++ rewrites) = resultIPs qtype rewrites := by
  induction front with
  | nil => rfl
  | cons e front ih =>
    rw [List.forall_mem_cons] at skipped
    rw [List.cons_append, resultIPs_cons, if_neg skipped.1]
    exact ih skipped.2

/-- The entries that count are either all exceptions or all addresses. -/
def Uniform (qtype : Nat) (rewrites : List LegacyRewrite) : Prop :=
  ∀ x ∈ rewrites, ∀ y ∈ rewrites, x.Counts qtype → y.Counts qtype → (x.ip = .zero ↔ y.ip = .zero)

/-- Where no exception stands among addresses, the order does not matter. -/
theorem mem_resultIPs {rewrites : List LegacyRewrite} (uniform : Uniform qtype rewrites) (ip : Addr) :
    ip ∈ resultIPs qtype rewrites ↔ ∃ e ∈ rewrites, e.Counts qtype ∧ e.ip = ip ∧ ip ≠ .zero := by
  induction rewrites with
  | nil => simp [resultIPs_nil]
  | cons e rewrites ih =>
    have later := ih fun x hx y hy => uniform x (List.mem_cons_of_mem _ hx) y (List.mem_cons_of_mem _ hy)
    rw [resultIPs_cons]
    split
    case isFalse other => simp [later, other]
    case isTrue counts =>
      split
      case isTrue zero =>
        -- every entry that counts is an exception as well
        simp only [List.not_mem_nil, false_iff]
        rintro ⟨y, member, yCounts, rfl, address⟩
        exact address ((uniform e List.mem_cons_self y member counts yCounts).mp zero)
      case isFalse address =>
        rw [List.mem_cons, later]
        simp only [List.mem_cons, exists_eq_or_imp]
        constructor
        · rintro (rfl | found)
          · exact .inl ⟨counts, rfl, address⟩
          · exact .inr found
        · rintro (⟨-, rfl, -⟩ | found)
          · exact .inl rfl
          · exact .inr found

end Loops

/-! ### The order -/

section Order

variable {host : String} {qtype : Nat} {a b : LegacyRewrite}

def LegacyRewrite.IsCNAME (e : LegacyRewrite) : Prop := e.type = typeCNAME

instance (e : LegacyRewrite) : Decidable e.IsCNAME := inferInstanceAs (Decidable (_ = _))

/-- The length of a domain, by which wildcards are compared. -/
def LegacyRewrite.size (e : LegacyRewrite) : Nat := (utf8 e.domain).length

theorem compare_le_iff : LegacyRewrite.compare a b ≤ 0 ↔
    (a.IsCNAME ∧ ¬b.IsCNAME) ∨ ((a.IsCNAME ↔ b.IsCNAME) ∧
      ((isWildcard a.domain = false ∧ isWildcard b.domain = true) ∨
        (isWildcard a.domain = isWildcard b.domain ∧ b.size ≤ a.size))) := by
  unfold LegacyRewrite.compare LegacyRewrite.IsCNAME LegacyRewrite.size
  by_cases ha : a.type = typeCNAME <;> by_cases hb : b.type = typeCNAME <;>
    cases wa : isWildcard a.domain <;> cases wb : isWildcard b.domain <;> simp [ha, hb]

/-- Whether an entry may stand before another in the sorted list. -/
def mayPrecede (a b : LegacyRewrite) : Bool := LegacyRewrite.compare a b ≤ 0

theorem mayPrecede_iff : mayPrecede a b = true ↔ LegacyRewrite.compare a b ≤ 0 := decide_eq_true_iff

theorem mayPrecede_trans (a b c : LegacyRewrite) (ab : mayPrecede a b = true)
    (bc : mayPrecede b c = true) : mayPrecede a c = true := by
  rw [mayPrecede_iff, compare_le_iff] at *
  grind

theorem mayPrecede_total (a b : LegacyRewrite) : (mayPrecede a b || mayPrecede b a) = true := by
  rw [Bool.or_eq_true, mayPrecede_iff, mayPrecede_iff, compare_le_iff, compare_le_iff]
  grind

/-- The stable sort, one of those that the promise allows. -/
def stableSort : SortFunc LegacyRewrite.compare where
  run l := l.mergeSort mayPrecede
  perm l := List.mergeSort_perm l _
  sorted l := (List.pairwise_mergeSort mayPrecede_trans mayPrecede_total l).imp mayPrecede_iff.mp

/-- What comes to stand before the first entry of the list. -/
theorem stableSort_cons (e : LegacyRewrite) (l : List LegacyRewrite) :
    ∃ front rest, stableSort.run (e :: l) = front ++ e :: rest ∧
      ∀ b ∈ front, b ∈ l ∧ ¬LegacyRewrite.compare e b ≤ 0 := by
  obtain ⟨front, rest, sorted, others, before⟩ := List.mergeSort_cons mayPrecede_trans mayPrecede_total e l
  refine ⟨front, rest, sorted, fun b member => ⟨?_, ?_⟩⟩
  · have moved : b ∈ l.mergeSort mayPrecede := by
      rw [others]
      exact List.mem_append_left _ member
    exact List.mem_mergeSort.mp moved
  · rw [← mayPrecede_iff]
    simpa using before b member

end Order

/-! ### What is selected -/

/-- What `findRewrites` is for. The host's own entries are returned if any of them
applies, and else one wildcard. -/
structure Selects (sortFunc : SortFunc LegacyRewrite.compare) (entries : List LegacyRewrite)
    (host : String) (qtype : Nat) : Prop where
  matched : (findRewrites sortFunc entries host qtype).2 = true ↔
    ∃ e ∈ entries, e.domain = host ∨ matchDomainWildcard host e.domain = true
  own : (∃ e ∈ entries, appliesExactly host qtype e = true) →
    (findRewrites sortFunc entries host qtype).1.Perm (entries.filter (appliesExactly host qtype)) ∧
      (findRewrites sortFunc entries host qtype).1.Pairwise fun a b => b.IsCNAME → a.IsCNAME
  wildcard : (¬∃ e ∈ entries, appliesExactly host qtype e = true) →
    (∃ e ∈ entries, applies host qtype e = true) →
    ∃ w ∈ entries, applies host qtype w = true ∧ isWildcard w.domain = true ∧
      (findRewrites sortFunc entries host qtype).1 = [w] ∧
      ∀ e ∈ entries, applies host qtype e = true →
        (e.IsCNAME → w.IsCNAME) ∧ ((e.IsCNAME ↔ w.IsCNAME) → e.size ≤ w.size)
  nothing : (¬∃ e ∈ entries, applies host qtype e = true) →
    (findRewrites sortFunc entries host qtype).1 = []
  order : ∀ entries', entries'.Perm entries → ∀ ip,
    ip ∈ resultIPs qtype (findRewrites sortFunc entries' host qtype).1 ↔
      ip ∈ resultIPs qtype (findRewrites sortFunc entries host qtype).1

/-- The configurations in which the comparison and the cut select what they should. -/
structure Unambiguous (entries : List LegacyRewrite) (host : String) (qtype : Nat) : Prop where
  /-- No wildcard CNAME stands beside an address or an exception of the host. -/
  cname : ∀ x ∈ entries, appliesExactly host qtype x = true → ¬x.IsCNAME →
    ∀ w ∈ entries, applies host qtype w = true → w.IsCNAME → w.domain = host
  /-- The host has no exception beside an address of the same type. -/
  exception : Uniform qtype (entries.filter (appliesExactly host qtype))
  /-- Where an address of a wildcard is the answer, the longest wildcards agree on it. -/
  tie : (¬∃ e ∈ entries, appliesExactly host qtype e = true) →
    (¬∃ e ∈ entries, applies host qtype e = true ∧ e.IsCNAME) →
    ∀ w₁ ∈ entries, ∀ w₂ ∈ entries, applies host qtype w₁ = true → applies host qtype w₂ = true →
      (∀ e ∈ entries, applies host qtype e = true → e.size ≤ w₁.size ∧ e.size ≤ w₂.size) →
      resultIPs qtype [w₁] = resultIPs qtype [w₂]
  /-- A host that reads as a wildcard has at most one entry. -/
  star : isWildcard host = true → (entries.filter (appliesExactly host qtype)).length ≤ 1

section Select

variable {host : String} {qtype : Nat} {entries entries' : List LegacyRewrite}

theorem applies_of_exactly {e : LegacyRewrite} (exactly : appliesExactly host qtype e = true) :
    applies host qtype e = true := by
  simp only [appliesExactly, applies, matchesHost, Bool.and_eq_true, Bool.or_eq_true,
    decide_eq_true_eq] at *
  exact ⟨.inl exactly.1, exactly.2⟩

theorem appliesExactly_iff {e : LegacyRewrite} :
    appliesExactly host qtype e = true ↔ applies host qtype e = true ∧ e.domain = host := by
  simp only [appliesExactly, applies, matchesHost, Bool.and_eq_true, Bool.or_eq_true,
    decide_eq_true_eq]
  constructor
  · rintro ⟨rfl, onType⟩
    exact ⟨⟨.inl rfl, onType⟩, rfl⟩
  · rintro ⟨⟨-, onType⟩, same⟩
    exact ⟨same, onType⟩

/-- An entry for another domain is a wildcard over the host. -/
theorem wildcard_of_applies {e : LegacyRewrite} (on : applies host qtype e = true)
    (other : e.domain ≠ host) : matchDomainWildcard host e.domain = true := by
  simp only [applies, matchesHost, Bool.and_eq_true, Bool.or_eq_true, decide_eq_true_eq] at on
  exact on.1.resolve_left other

theorem isWildcard_of_match {pat : String} (matches_ : matchDomainWildcard host pat = true) :
    isWildcard pat = true := by
  simp only [matchDomainWildcard, Bool.and_eq_true] at matches_
  exact matches_.1

theorem isWildcard_bytes {pat : String} (wild : isWildcard pat = true) :
    ∃ rest, utf8 pat = 42 :: 46 :: rest := by
  unfold isWildcard at wild
  split at wild
  case h_1 c d rest text =>
    simp only [Bool.and_eq_true, beq_iff_eq] at wild
    exact ⟨rest, by rw [text, wild.1, wild.2]⟩
  case h_2 => cases wild

/-- A host that reads as a wildcard is longer than every other wildcard over it. -/
theorem shorter_of_star {e : LegacyRewrite} (star : isWildcard host = true)
    (over_ : matchDomainWildcard host e.domain = true) (other : e.domain ≠ host) :
    e.size < (utf8 host).length := by
  obtain ⟨tail, hostText⟩ := isWildcard_bytes star
  obtain ⟨rest, text⟩ := isWildcard_bytes (isWildcard_of_match over_)
  simp only [matchDomainWildcard, Bool.and_eq_true, decide_eq_true_eq] at over_
  have suffix := over_.2
  rw [text, hostText, List.drop_one, List.tail_cons, List.suffix_cons_iff] at suffix
  unfold LegacyRewrite.size
  rw [text, hostText]
  rcases suffix with whole | shorter
  · simp at whole
  · have bound := shorter.length_le
    simp only [List.length_cons] at bound ⊢
    rcases Nat.lt_or_ge rest.length tail.length with less | same
    · omega
    · -- a suffix of full length is the whole text
      have equal := shorter.eq_of_length_le (by simpa using same)
      exact absurd (utf8_inj (by rw [text, hostText, equal])) other

theorem isWildcard_of_applies {e : LegacyRewrite} (on : applies host qtype e = true)
    (starOrOther : isWildcard host = true ∨ e.domain ≠ host) : isWildcard e.domain = true := by
  by_cases same : e.domain = host
  · rw [same]
    exact starOrOther.resolve_right (not_not_intro same)
  · exact isWildcard_of_match (wildcard_of_applies on same)

theorem mem_run {sortFunc : SortFunc LegacyRewrite.compare} {e : LegacyRewrite} :
    e ∈ sortFunc.run (entries.filter (applies host qtype)) ↔ e ∈ entries ∧ applies host qtype e = true := by
  rw [(sortFunc.perm _).mem_iff, List.mem_filter]

theorem compare_self (e : LegacyRewrite) : LegacyRewrite.compare e e ≤ 0 := by
  rw [compare_le_iff]
  exact .inr ⟨Iff.rfl, .inr ⟨rfl, Nat.le_refl _⟩⟩

/-- A list of wildcards is cut to its first. -/
theorem cutAtWildcard_wild {l : List LegacyRewrite}
    (sorted : l.Pairwise fun a b => LegacyRewrite.compare a b ≤ 0)
    (wild : ∀ e ∈ l, isWildcard e.domain = true) (any : l ≠ []) :
    ∃ w ∈ l, cutAtWildcard l = [w] ∧ ∀ e ∈ l, LegacyRewrite.compare w e ≤ 0 := by
  cases l with
  | nil => exact absurd rfl any
  | cons w rest =>
    refine ⟨w, List.mem_cons_self, ?_, ?_⟩
    · rw [cutAtWildcard_cons, if_pos (wild w List.mem_cons_self)]
    · intro e member
      rcases List.mem_cons.mp member with rfl | later
      · exact compare_self e
      · exact (List.pairwise_cons.mp sorted).1 e later

/-- A list in which no wildcard precedes another entry is cut to the other entries. -/
theorem cutAtWildcard_filter {l : List LegacyRewrite}
    (last : l.Pairwise fun a b => isWildcard a.domain = true → isWildcard b.domain = true)
    (any : ∃ e ∈ l, isWildcard e.domain = false) :
    cutAtWildcard l = l.filter fun e => !isWildcard e.domain := by
  have whole : ∀ {l : List LegacyRewrite},
      l.Pairwise (fun a b => isWildcard a.domain = true → isWildcard b.domain = true) →
      l.takeWhile (fun e => !isWildcard e.domain) = l.filter fun e => !isWildcard e.domain := by
    intro l last
    induction l with
    | nil => rfl
    | cons r rest ih =>
      rw [List.pairwise_cons] at last
      rw [List.takeWhile_cons, List.filter_cons]
      by_cases wild : isWildcard r.domain = true
      · have none : rest.filter (fun e => !isWildcard e.domain) = [] := by
          rw [List.filter_eq_nil_iff]
          intro e member
          simp [last.1 e member wild]
        simp [wild, none]
      · simp [wild, ih last.2]
  cases l with
  | nil => simp at any
  | cons r rest =>
    rw [List.pairwise_cons] at last
    have tame : ¬isWildcard r.domain = true := by
      intro wild
      obtain ⟨e, member, other⟩ := any
      rcases List.mem_cons.mp member with rfl | later
      · simp [wild] at other
      · simp [last.1 e later wild] at other
    rw [cutAtWildcard_cons, if_neg tame, whole last.2, List.filter_cons_of_pos (by simpa using tame)]

/-- The entry of a host that reads as a wildcard is longer than the other wildcards. -/
theorem star_first {w x : LegacyRewrite} (clear : Unambiguous entries host qtype)
    (star : isWildcard host = true) (wMember : w ∈ entries) (onW : applies host qtype w = true)
    (xMember : x ∈ entries) (exactly : appliesExactly host qtype x = true)
    (ordered : LegacyRewrite.compare w x ≤ 0) : w.domain = host := by
  obtain ⟨onX, same⟩ := appliesExactly_iff.mp exactly
  by_contra other
  have shorter := shorter_of_star star (wildcard_of_applies onW other) other
  have size : x.size = (utf8 host).length := by rw [LegacyRewrite.size, same]
  have wild := isWildcard_of_applies onW (.inr other)
  rcases compare_le_iff.mp ordered with ⟨wCNAME, xOther⟩ | ⟨-, ⟨tame, -⟩ | ⟨-, longer⟩⟩
  · exact other (clear.cname x xMember exactly xOther w wMember onW wCNAME)
  · rw [wild] at tame
    cases tame
  · omega

/-- A wildcard before another entry would be a CNAME beside an address. -/
theorem wildcards_last (sortFunc : SortFunc LegacyRewrite.compare) (clear : Unambiguous entries host qtype)
    (star : ¬isWildcard host = true) :
    (sortFunc.run (entries.filter (applies host qtype))).Pairwise
      fun a b => isWildcard a.domain = true → isWildcard b.domain = true := by
  refine (sortFunc.sorted _).imp_of_mem ?_
  intro a b aIn bIn ordered wild
  obtain ⟨aMember, onA⟩ := mem_run.mp aIn
  obtain ⟨bMember, onB⟩ := mem_run.mp bIn
  by_contra tame
  have bSame : b.domain = host := by
    by_contra other
    exact tame (isWildcard_of_applies onB (.inr other))
  have exactly := appliesExactly_iff.mpr ⟨onB, bSame⟩
  rcases compare_le_iff.mp ordered with ⟨aCNAME, bOther⟩ | ⟨-, ⟨aTame, -⟩ | ⟨agree, -⟩⟩
  · rw [clear.cname b bMember exactly bOther a aMember onA aCNAME] at wild
    exact star wild
  · rw [wild] at aTame
    cases aTame
  · exact tame (agree ▸ wild)

/-- Where the host is no wildcard, the entries for it are the ones that are none. -/
theorem tame_iff_exactly {e : LegacyRewrite} (star : ¬isWildcard host = true) :
    (!isWildcard e.domain && applies host qtype e) = appliesExactly host qtype e := by
  rw [Bool.eq_iff_iff, appliesExactly_iff, Bool.and_eq_true, Bool.not_eq_true']
  constructor
  · rintro ⟨tame, on⟩
    refine ⟨on, ?_⟩
    by_contra other
    simp [isWildcard_of_applies on (.inr other)] at tame
  · rintro ⟨on, same⟩
    exact ⟨by rw [same]; exact eq_false_of_ne_true star, on⟩

theorem own_of_unambiguous (sortFunc : SortFunc LegacyRewrite.compare)
    (clear : Unambiguous entries host qtype)
    (any : ∃ e ∈ entries, appliesExactly host qtype e = true) :
    (findRewrites sortFunc entries host qtype).1.Perm (entries.filter (appliesExactly host qtype)) := by
  obtain ⟨x, member, exactly⟩ := any
  obtain ⟨onX, same⟩ := appliesExactly_iff.mp exactly
  have xIn : x ∈ sortFunc.run (entries.filter (applies host qtype)) := mem_run.mpr ⟨member, onX⟩
  rw [findRewrites_list]
  by_cases star : isWildcard host = true
  · obtain ⟨w, wIn, cut, first⟩ := cutAtWildcard_wild (sortFunc.sorted _)
      (fun e eIn => isWildcard_of_applies (mem_run.mp eIn).2 (.inl star)) (List.ne_nil_of_mem xIn)
    obtain ⟨wMember, onW⟩ := mem_run.mp wIn
    have wSame := star_first clear star wMember onW member exactly (first x xIn)
    have wOwn : w ∈ entries.filter (appliesExactly host qtype) :=
      List.mem_filter.mpr ⟨wMember, appliesExactly_iff.mpr ⟨onW, wSame⟩⟩
    obtain ⟨y, only⟩ := List.length_eq_one_iff.mp
      (Nat.le_antisymm (clear.star star) (List.length_pos_of_mem wOwn))
    rw [only, List.mem_singleton] at wOwn
    rw [cut, only, wOwn]
  · have tame : isWildcard x.domain = false := by
      rw [same]
      exact eq_false_of_ne_true star
    rw [cutAtWildcard_filter (wildcards_last sortFunc clear star) ⟨x, xIn, tame⟩]
    refine ((sortFunc.perm _).filter _).trans (List.Perm.of_eq ?_)
    rw [List.filter_filter]
    exact List.filter_congr fun e _ => tame_iff_exactly star

/-- CNAMEs come first in every result. -/
theorem cnames_first (sortFunc : SortFunc LegacyRewrite.compare) :
    (findRewrites sortFunc entries host qtype).1.Pairwise fun a b => b.IsCNAME → a.IsCNAME := by
  have sorted := sortFunc.sorted (entries.filter (applies host qtype))
  obtain ⟨rest, split_⟩ := cutAtWildcard_isPrefix (sortFunc.run (entries.filter (applies host qtype)))
  rw [split_, List.pairwise_append] at sorted
  rw [findRewrites_list]
  refine sorted.1.imp ?_
  intro a b ordered bCNAME
  rcases compare_le_iff.mp ordered with ⟨aCNAME, -⟩ | ⟨agree, -⟩
  · exact aCNAME
  · exact agree.mpr bCNAME

/-- Without an entry for the host, the first of the wildcards is selected. -/
theorem wildcard_selected (sortFunc : SortFunc LegacyRewrite.compare)
    (none : ¬∃ e ∈ entries, appliesExactly host qtype e = true)
    (any : ∃ e ∈ entries, applies host qtype e = true) :
    ∃ w ∈ entries, applies host qtype w = true ∧ isWildcard w.domain = true ∧
      (findRewrites sortFunc entries host qtype).1 = [w] ∧
      ∀ e ∈ entries, applies host qtype e = true →
        (e.IsCNAME → w.IsCNAME) ∧ ((e.IsCNAME ↔ w.IsCNAME) → e.size ≤ w.size) := by
  have wild : ∀ e ∈ entries, applies host qtype e = true → isWildcard e.domain = true := by
    intro e member on
    exact isWildcard_of_applies on (.inr fun same => none ⟨e, member, appliesExactly_iff.mpr ⟨on, same⟩⟩)
  obtain ⟨x, member, on⟩ := any
  obtain ⟨w, wIn, cut, first⟩ := cutAtWildcard_wild (sortFunc.sorted (entries.filter (applies host qtype)))
    (fun e eIn => wild e (mem_run.mp eIn).1 (mem_run.mp eIn).2)
    (List.ne_nil_of_mem (mem_run.mpr ⟨member, on⟩))
  obtain ⟨wMember, onW⟩ := mem_run.mp wIn
  rw [findRewrites_list]
  refine ⟨w, wMember, onW, wild w wMember onW, cut, ?_⟩
  intro e eMember onE
  have ordered := first e (mem_run.mpr ⟨eMember, onE⟩)
  rw [compare_le_iff, wild w wMember onW, wild e eMember onE] at ordered
  grind

theorem nothing_selected (sortFunc : SortFunc LegacyRewrite.compare)
    (none : ¬∃ e ∈ entries, applies host qtype e = true) :
    (findRewrites sortFunc entries host qtype).1 = [] := by
  have empty : entries.filter (applies host qtype) = [] := by
    rw [List.filter_eq_nil_iff]
    exact fun e member on => none ⟨e, member, on⟩
  rw [findRewrites_list, empty, (sortFunc.perm []).eq_nil]
  rfl

/-! ### The order of the configuration -/

theorem Unambiguous.perm (clear : Unambiguous entries host qtype) (same : entries'.Perm entries) :
    Unambiguous entries' host qtype where
  cname x xMember exactly other w wMember :=
    clear.cname x (same.mem_iff.mp xMember) exactly other w (same.mem_iff.mp wMember)
  exception x xMember y yMember :=
    clear.exception x ((same.filter _).mem_iff.mp xMember) y ((same.filter _).mem_iff.mp yMember)
  tie := by simpa only [same.mem_iff] using clear.tie
  star wild := (same.filter _).length_eq ▸ clear.star wild

theorem not_counts_of_cname {e : LegacyRewrite} (qtype : Nat) (cname : e.IsCNAME) : ¬e.Counts qtype := by
  rintro ⟨type, isA | isAAAA⟩
  · rw [cname, isA] at type
    cases type
  · rw [cname, isAAAA] at type
    cases type

theorem order_of_unambiguous (sortFunc : SortFunc LegacyRewrite.compare)
    (clear : Unambiguous entries host qtype) (same : entries'.Perm entries) (ip : Addr) :
    ip ∈ resultIPs qtype (findRewrites sortFunc entries' host qtype).1 ↔
      ip ∈ resultIPs qtype (findRewrites sortFunc entries host qtype).1 := by
  have clear' := clear.perm same
  by_cases own : ∃ e ∈ entries, appliesExactly host qtype e = true
  · have own' : ∃ e ∈ entries', appliesExactly host qtype e = true := by simpa only [same.mem_iff] using own
    have left := own_of_unambiguous sortFunc clear' own'
    have right := own_of_unambiguous sortFunc clear own
    rw [mem_resultIPs (fun x hx y hy => clear'.exception x (left.mem_iff.mp hx) y (left.mem_iff.mp hy)),
      mem_resultIPs (fun x hx y hy => clear.exception x (right.mem_iff.mp hx) y (right.mem_iff.mp hy))]
    simp only [left.mem_iff, right.mem_iff, (same.filter _).mem_iff]
  · by_cases any : ∃ e ∈ entries, applies host qtype e = true
    · have any' : ∃ e ∈ entries', applies host qtype e = true := by simpa only [same.mem_iff] using any
      have own' : ¬∃ e ∈ entries', appliesExactly host qtype e = true := by
        simpa only [same.mem_iff] using own
      obtain ⟨w, member, on, -, cut, best⟩ := wildcard_selected sortFunc own any
      obtain ⟨w', member', on', -, cut', best'⟩ := wildcard_selected sortFunc own' any'
      rw [same.mem_iff] at member'
      simp only [same.mem_iff] at best'
      rw [cut, cut']
      by_cases cname : ∃ e ∈ entries, applies host qtype e = true ∧ e.IsCNAME
      · -- neither has an address
        obtain ⟨e, eMember, onE, isCNAME⟩ := cname
        have skip := not_counts_of_cname qtype ((best e eMember onE).1 isCNAME)
        have skip' := not_counts_of_cname qtype ((best' e eMember onE).1 isCNAME)
        rw [resultIPs_cons, if_neg skip', resultIPs_cons, if_neg skip]
      · have longest : ∀ e ∈ entries, applies host qtype e = true → e.size ≤ w'.size ∧ e.size ≤ w.size := by
          intro e eMember onE
          have plain : ∀ x ∈ entries, applies host qtype x = true → ¬x.IsCNAME :=
            fun x xMember onX isCNAME => cname ⟨x, xMember, onX, isCNAME⟩
          have ofE := plain e eMember onE
          exact ⟨(best' e eMember onE).2 (iff_of_false ofE (plain w' member' on')),
            (best e eMember onE).2 (iff_of_false ofE (plain w member on))⟩
        rw [clear.tie own cname w' member' w member on' on longest]
    · have any' : ¬∃ e ∈ entries', applies host qtype e = true := by simpa only [same.mem_iff] using any
      rw [nothing_selected sortFunc any, nothing_selected sortFunc any']

theorem selects_of_unambiguous (sortFunc : SortFunc LegacyRewrite.compare)
    (clear : Unambiguous entries host qtype) : Selects sortFunc entries host qtype where
  matched := by
    rw [findRewrites_matched, List.any_eq_true]
    simp [matchesHost]
  own any := ⟨own_of_unambiguous sortFunc clear any, cnames_first sortFunc⟩
  wildcard := wildcard_selected sortFunc
  nothing := nothing_selected sortFunc
  order entries' same := order_of_unambiguous sortFunc clear same

/-! ### The configurations that go wrong -/

/-- An address of the host behind a wildcard CNAME is cut off. -/
theorem cname_of_selects {sortFunc : SortFunc LegacyRewrite.compare}
    (selects : Selects sortFunc entries host qtype)
    {x w : LegacyRewrite} (xMember : x ∈ entries) (exactly : appliesExactly host qtype x = true)
    (other : ¬x.IsCNAME) (wMember : w ∈ entries) (onW : applies host qtype w = true)
    (cname : w.IsCNAME) : w.domain = host := by
  obtain ⟨own, -⟩ := selects.own ⟨x, xMember, exactly⟩
  have sorted := sortFunc.sorted (entries.filter (applies host qtype))
  obtain ⟨rest, split_⟩ := cutAtWildcard_isPrefix (sortFunc.run (entries.filter (applies host qtype)))
  rw [findRewrites_list] at own
  have xIn := own.mem_iff.mpr (List.mem_filter.mpr ⟨xMember, exactly⟩)
  have wIn : w ∈ sortFunc.run (entries.filter (applies host qtype)) := mem_run.mpr ⟨wMember, onW⟩
  rw [split_, List.mem_append] at wIn
  rw [split_, List.pairwise_append] at sorted
  rcases wIn with kept | cut
  · exact (appliesExactly_iff.mp (List.mem_filter.mp (own.mem_iff.mp kept)).2).2
  · rcases compare_le_iff.mp (sorted.2.2 x xIn w cut) with ⟨xCNAME, -⟩ | ⟨agree, -⟩
    · exact absurd xCNAME other
    · exact absurd (agree.mpr cname) other

theorem star_of_selects (selects : Selects stableSort entries host qtype) (star : isWildcard host = true) :
    (entries.filter (appliesExactly host qtype)).length ≤ 1 := by
  by_cases any : ∃ e ∈ entries, appliesExactly host qtype e = true
  · obtain ⟨own, -⟩ := selects.own any
    obtain ⟨x, member, exactly⟩ := any
    have xIn : x ∈ stableSort.run (entries.filter (applies host qtype)) :=
      mem_run.mpr ⟨member, applies_of_exactly exactly⟩
    obtain ⟨w, -, cut, -⟩ := cutAtWildcard_wild (stableSort.sorted (entries.filter (applies host qtype)))
      (fun e eIn => isWildcard_of_applies (mem_run.mp eIn).2 (.inl star)) (List.ne_nil_of_mem xIn)
    rw [findRewrites_list, cut] at own
    exact own.length_eq.ge
  · have empty : entries.filter (appliesExactly host qtype) = [] := by
      rw [List.filter_eq_nil_iff]
      exact fun e member exactly => any ⟨e, member, exactly⟩
    simp [empty]

/-- An entry can be moved to the front of the configuration. -/
theorem front_perm {e : LegacyRewrite} (member : e ∈ entries) : (e :: entries.erase e).Perm entries :=
  (List.perm_cons_erase member).symm

/-- An address or an exception of the host may stand before everything but CNAMEs. -/
theorem precedes_plain {e b : LegacyRewrite} (exactly : appliesExactly host qtype e = true)
    (tame : isWildcard e.domain = false) (other : ¬e.IsCNAME) (onB : applies host qtype b = true)
    (plain : ¬b.IsCNAME) : LegacyRewrite.compare e b ≤ 0 := by
  refine compare_le_iff.mpr (.inr ⟨iff_of_false other plain, ?_⟩)
  by_cases same : b.domain = e.domain
  · right
    rw [LegacyRewrite.size, LegacyRewrite.size, same]
    exact ⟨rfl, Nat.le_refl _⟩
  · left
    rw [(appliesExactly_iff.mp exactly).2] at same
    exact ⟨tame, isWildcard_of_applies onB (.inr same)⟩

/-- The cut keeps the entries up to one that no wildcard precedes. -/
theorem cutAtWildcard_append {front : List LegacyRewrite} {e : LegacyRewrite}
    (tames : ∀ b ∈ front, isWildcard b.domain = false) (tame : isWildcard e.domain = false)
    (rest : List LegacyRewrite) :
    ∃ rest', cutAtWildcard (front ++ e :: rest) = front ++ e :: rest' := by
  cases front with
  | nil =>
    refine ⟨rest.takeWhile fun r => !isWildcard r.domain, ?_⟩
    rw [List.nil_append, cutAtWildcard_cons, if_neg (by simp [tame])]
    rfl
  | cons f front =>
    rw [List.forall_mem_cons] at tames
    refine ⟨rest.takeWhile fun r => !isWildcard r.domain, ?_⟩
    rw [List.cons_append, cutAtWildcard_cons, if_neg (by simp [tames.1]),
      List.takeWhile_append_of_pos (fun b inFront => by simp [tames.2 b inFront]),
      List.takeWhile_cons_of_pos (by simp [tame])]
    rfl

/-- An address or an exception of the host that the configuration begins with comes
right behind the CNAMEs. -/
theorem own_front {e : LegacyRewrite} (star : ¬isWildcard host = true)
    (exactly : appliesExactly host qtype e = true) (other : ¬e.IsCNAME)
    (cname : ∀ w ∈ entries, applies host qtype w = true → w.IsCNAME → w.domain = host) :
    ∃ front rest, (findRewrites stableSort (e :: entries.erase e) host qtype).1 = front ++ e :: rest ∧
      ∀ b ∈ front, b.IsCNAME := by
  have on := applies_of_exactly exactly
  obtain ⟨front, rest, sorted, before⟩ := stableSort_cons e ((entries.erase e).filter (applies host qtype))
  have tame : isWildcard e.domain = false := by
    rw [(appliesExactly_iff.mp exactly).2]
    exact eq_false_of_ne_true star
  have frontCNAME : ∀ b ∈ front, b.IsCNAME ∧ isWildcard b.domain = false := by
    intro b inFront
    obtain ⟨later, smaller⟩ := before b inFront
    obtain ⟨erased, onB⟩ := List.mem_filter.mp later
    have bCNAME : b.IsCNAME := by
      by_contra plain
      exact smaller (precedes_plain exactly tame other onB plain)
    have bSame := cname b (List.mem_of_mem_erase erased) onB bCNAME
    refine ⟨bCNAME, ?_⟩
    rw [bSame]
    exact eq_false_of_ne_true star
  obtain ⟨rest', cut⟩ := cutAtWildcard_append (fun b inFront => (frontCNAME b inFront).2) tame rest
  refine ⟨front, rest', ?_, fun b inFront => (frontCNAME b inFront).1⟩
  rw [findRewrites_list, List.filter_cons_of_pos on, sorted, cut]

/-- Where an exception of the host stands beside an address, the first of them decides. -/
theorem exception_of_selects (selects : Selects stableSort entries host qtype) :
    Uniform qtype (entries.filter (appliesExactly host qtype)) := by
  -- the exception hides the address when it comes first, and not when it comes second
  have noMix : ∀ x ∈ entries.filter (appliesExactly host qtype),
      ∀ y ∈ entries.filter (appliesExactly host qtype),
      x.Counts qtype → y.Counts qtype → x.ip = .zero → y.ip = .zero := by
    intro x xOwn y yOwn xCounts yCounts zero
    by_cases star : isWildcard host = true
    · have single := star_of_selects selects star
      obtain ⟨z, only⟩ := List.length_eq_one_iff.mp
        (Nat.le_antisymm single (List.length_pos_of_mem xOwn))
      rw [only, List.mem_singleton] at xOwn yOwn
      rw [yOwn, ← xOwn, zero]
    · obtain ⟨xMember, xExactly⟩ := List.mem_filter.mp xOwn
      obtain ⟨yMember, yExactly⟩ := List.mem_filter.mp yOwn
      have xOther : ¬x.IsCNAME := fun cname => not_counts_of_cname qtype cname xCounts
      have yOther : ¬y.IsCNAME := fun cname => not_counts_of_cname qtype cname yCounts
      have cname : ∀ w ∈ entries, applies host qtype w = true → w.IsCNAME → w.domain = host :=
        fun w => cname_of_selects selects xMember xExactly xOther
      obtain ⟨front, rest, xFirst, skip⟩ := own_front star xExactly xOther cname
      obtain ⟨front', rest', yFirst, skip'⟩ := own_front star yExactly yOther cname
      have order := (selects.order _ (front_perm yMember) y.ip).trans
        (selects.order _ (front_perm xMember) y.ip).symm
      rw [xFirst, yFirst, resultIPs_skip (fun e h => not_counts_of_cname qtype (skip e h)),
        resultIPs_skip (fun e h => not_counts_of_cname qtype (skip' e h)), resultIPs_cons,
        resultIPs_cons, if_pos xCounts, if_pos yCounts, if_pos zero] at order
      by_contra address
      rw [if_neg address] at order
      exact List.not_mem_nil (order.mp List.mem_cons_self)
  intro x xOwn y yOwn xCounts yCounts
  exact ⟨noMix x xOwn y yOwn xCounts yCounts, noMix y yOwn x xOwn yCounts xCounts⟩

/-- The longest wildcard that the configuration begins with is selected. -/
theorem wildcard_front {w : LegacyRewrite} (member : w ∈ entries) (on : applies host qtype w = true)
    (none : ¬∃ e ∈ entries, appliesExactly host qtype e = true)
    (plain : ¬∃ e ∈ entries, applies host qtype e = true ∧ e.IsCNAME)
    (longest : ∀ e ∈ entries, applies host qtype e = true → e.size ≤ w.size) :
    (findRewrites stableSort (w :: entries.erase w) host qtype).1 = [w] := by
  have wild : ∀ e ∈ entries, applies host qtype e = true → isWildcard e.domain = true := by
    intro e eMember onE
    exact isWildcard_of_applies onE (.inr fun same => none ⟨e, eMember, appliesExactly_iff.mpr ⟨onE, same⟩⟩)
  obtain ⟨front, rest, sorted, before⟩ := stableSort_cons w ((entries.erase w).filter (applies host qtype))
  have empty : front = [] := by
    rw [List.eq_nil_iff_forall_not_mem]
    intro b inFront
    obtain ⟨later, smaller⟩ := before b inFront
    obtain ⟨erased, onB⟩ := List.mem_filter.mp later
    have bMember := List.mem_of_mem_erase erased
    refine smaller (compare_le_iff.mpr (.inr ⟨?_, .inr ⟨?_, longest b bMember onB⟩⟩))
    · exact iff_of_false (fun cname => plain ⟨w, member, on, cname⟩) (fun cname => plain ⟨b, bMember, onB, cname⟩)
    · rw [wild w member on, wild b bMember onB]
  rw [findRewrites_list, List.filter_cons_of_pos on, sorted, empty, List.nil_append, cutAtWildcard_cons,
    if_pos (wild w member on)]

theorem resultIPs_ext {w₁ w₂ : LegacyRewrite}
    (same : ∀ ip, ip ∈ resultIPs qtype [w₁] ↔ ip ∈ resultIPs qtype [w₂]) :
    resultIPs qtype [w₁] = resultIPs qtype [w₂] := by
  have short : ∀ w, resultIPs qtype [w] = [] ∨ ∃ ip, resultIPs qtype [w] = [ip] := by
    intro w
    rw [resultIPs_cons, resultIPs_nil]
    split
    · split
      · exact .inl rfl
      · exact .inr ⟨_, rfl⟩
    · exact .inl rfl
  rcases short w₁ with none₁ | ⟨ip₁, one₁⟩ <;> rcases short w₂ with none₂ | ⟨ip₂, one₂⟩
  · rw [none₁, none₂]
  · simpa [none₁, one₂] using same ip₂
  · simpa [one₁, none₂] using same ip₁
  · have equal := same ip₁
    rw [one₁, one₂, List.mem_singleton, List.mem_singleton] at equal
    rw [one₁, one₂, equal.mp rfl]

theorem unambiguous_of_selects (selects : Selects stableSort entries host qtype) :
    Unambiguous entries host qtype where
  cname x xMember exactly other w := cname_of_selects selects xMember exactly other
  exception := exception_of_selects selects
  tie none plain w₁ member₁ w₂ member₂ on₁ on₂ longest := by
    have first₁ := wildcard_front member₁ on₁ none plain fun e member on => (longest e member on).1
    have first₂ := wildcard_front member₂ on₂ none plain fun e member on => (longest e member on).2
    apply resultIPs_ext
    intro ip
    rw [← first₁, ← first₂]
    exact (selects.order _ (front_perm member₁) ip).trans (selects.order _ (front_perm member₂) ip).symm
  star := star_of_selects selects

end Select

/-- `findRewrites` selects what its comment says for the unambiguous configurations, and
for no other. -/
theorem findRewrites_selects_iff (entries : List LegacyRewrite) (host : String) (qtype : Nat) :
    (∀ sortFunc, Selects sortFunc entries host qtype) ↔ Unambiguous entries host qtype := by
  constructor
  · intro selects
    exact unambiguous_of_selects (selects stableSort)
  · intro clear sortFunc
    exact selects_of_unambiguous sortFunc clear

/-- A host with an address of its own below a wildcard CNAME, as configured. -/
def pinnedHost : List LegacyRewrite :=
  [⟨"a.example.org", "1.2.3.4", .zero, 0⟩, ⟨"*.example.org", "other.net", .zero, 0⟩]

theorem pinnedHost_shadowed : ¬∃ sortFunc, Selects sortFunc
    (pinnedHost.map (LegacyRewrite.normalize String.toLower)) "a.example.org" typeA := by
  rintro ⟨sortFunc, selects⟩
  have entries : pinnedHost.map (LegacyRewrite.normalize String.toLower) =
      [⟨"a.example.org", "1.2.3.4", .v4 0x01020304, typeA⟩,
        ⟨"*.example.org", "other.net", .zero, typeCNAME⟩] := by decide +kernel
  rw [entries] at selects
  have same := cname_of_selects selects List.mem_cons_self (by decide +kernel) (by decide)
    (List.mem_cons_of_mem _ List.mem_cons_self) (by decide +kernel) rfl
  revert same
  decide

end FirewallCore.Filtering
