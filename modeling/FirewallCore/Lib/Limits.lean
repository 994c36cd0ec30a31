import Mathlib.Data.List.Basic

/-!
The counters of packet filter matchers: the token bucket of `limit` and the
table of source addresses of `recent`. Times are in milliseconds.
-/

namespace FirewallCore.Lib

/-! ### Token buckets -/

/-- A rate as the time that earns one token, with the credit that can be saved. -/
structure Limit where
  cost : Nat
  cap : Nat
  deriving DecidableEq, Repr

/-- `--limit n/s --limit-burst burst` -/
def Limit.perSecond (rate burst : Nat) : Limit := ⟨1000 / rate, burst * (1000 / rate)⟩

/-- The credit of a bucket, and when it was last reckoned. -/
structure Bucket where
  credit : Nat
  prev : Nat
  deriving DecidableEq, Repr

/-- A bucket that has not been used is full. -/
def Limit.credit (limit : Limit) (bucket : Option Bucket) (now : Nat) : Nat :=
  match bucket with
  | none => limit.cap
  | some b => min limit.cap (b.credit + (now - b.prev))

/-- Takes a token, if there is one. -/
def Limit.take (limit : Limit) (bucket : Option Bucket) (now : Nat) : Bool × Bucket :=
  if limit.cost ≤ limit.credit bucket now then (true, ⟨limit.credit bucket now - limit.cost, now⟩)
  else (false, ⟨limit.credit bucket now, now⟩)

/-! ### Recent sources -/

/-- A source and the times it was seen at, newest first. -/
structure Seen (α : Type) where
  src : α
  stamps : List Nat
  deriving DecidableEq, Repr

/-- The sources, the one seen last first. -/
abbrev Recent (α : Type) := List (Seen α)

/-- `ip_list_tot` -/
def Recent.maxSources : Nat := 100

/-- `ip_pkt_list_tot` -/
def Recent.maxStamps : Nat := 20

namespace Recent

variable {α : Type} [DecidableEq α] {table : Recent α} {src : α} {now seconds : Nat}

def stampsOf (table : Recent α) (src : α) : List Nat :=
  match table.find? (·.src = src) with
  | none => []
  | some seen => seen.stamps

/-- Adds a stamp. A new source takes the place of the one not seen for longest in a full table. -/
def touch (table : Recent α) (src : α) (now : Nat) : Recent α :=
  ⟨src, (now :: table.stampsOf src).take maxStamps⟩ ::
    (table.filter (·.src ≠ src)).take (maxSources - 1)

/-- How often a source was seen in the last seconds. -/
def hits (table : Recent α) (src : α) (seconds now : Nat) : Nat :=
  (table.stampsOf src).countP fun stamp => now - stamp ≤ 1000 * seconds

/-- `--update --seconds --hitcount`: a source seen often enough is seen again. -/
def update (table : Recent α) (src : α) (seconds hitcount now : Nat) : Bool × Recent α :=
  if hitcount ≤ table.hits src seconds now then (true, table.touch src now) else (false, table)

theorem stampsOf_touch :
    (table.touch src now).stampsOf src = (now :: table.stampsOf src).take maxStamps := by
  simp [touch, stampsOf]

/-- The newest `n` stamps of the source are of now. -/
def SeenNow (table : Recent α) (src : α) (now n : Nat) : Prop :=
  List.replicate n now <+: table.stampsOf src

theorem SeenNow.touch {n : Nat} (seen : SeenNow table src now n) (few : n < maxStamps) :
    SeenNow (table.touch src now) src now (n + 1) := by
  obtain ⟨rest, stamps⟩ := seen
  have whole : (List.replicate (n + 1) now).take maxStamps = List.replicate (n + 1) now := by
    apply List.take_of_length_le
    rw [List.length_replicate]
    exact few
  unfold SeenNow
  rw [stampsOf_touch, ← stamps]
  refine ⟨rest.take (maxStamps - (n + 1)), ?_⟩
  rw [← List.cons_append, ← List.replicate_succ, List.take_append, whole, List.length_replicate]

theorem SeenNow.hits {n : Nat} (seen : SeenNow table src now n) : n ≤ table.hits src seconds now := by
  obtain ⟨rest, stamps⟩ := seen
  rw [Recent.hits, ← stamps, List.countP_append, List.countP_replicate]
  simp

theorem SeenNow.mono {m n : Nat} (seen : SeenNow table src now n) (fewer : m ≤ n) :
    SeenNow table src now m := by
  refine List.IsPrefix.trans ⟨List.replicate (n - m) now, ?_⟩ seen
  rw [List.replicate_append_replicate, Nat.add_sub_cancel' fewer]

/-- An update adds at most one more stamp of now. -/
theorem SeenNow.update {n hitcount : Nat} (seen : SeenNow table src now n) (few : n < maxStamps) :
    SeenNow (table.update src seconds hitcount now).2 src now n := by
  unfold Recent.update
  split
  · exact (seen.touch few).mono (Nat.le_succ n)
  · exact seen

theorem update_few {hitcount : Nat} (few : table.hits src seconds now < hitcount) :
    table.update src seconds hitcount now = (false, table) :=
  if_neg (Nat.not_le.mpr few)

theorem hits_replicate {n : Nat} (stamps : table.stampsOf src = List.replicate n now) :
    table.hits src seconds now = n := by
  simp [hits, stamps, List.countP_replicate]

end Recent

end FirewallCore.Lib
