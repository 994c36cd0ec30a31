import Mathlib.Data.List.Infix
import FirewallCore.Lib.UrlPath

/-!
The login gate of the web backend (`server.js`): `requireLogin`, the file
server behind it (`express.static`, with `send` as it is vendored) and the
routes of the pages.

A request is a GET of a URL path, as `req.path` gives it. The tree under
`public/` maps the names on the way to an entry. Headers, queries and what
comes behind the page routes are left out; none of it reads the tree.
-/

namespace FirewallCore.WebUI

open FirewallCore.Lib FirewallCore.Lib.UrlPath

/-! ### The tree -/

/-- The way to an entry. -/
abbrev FilePath := List Name

inductive Node where
  | dir
  | file (content : String)
  deriving DecidableEq, Repr

/-- A tree of directories and files. -/
structure Tree where
  node : FilePath → Option Node
  root : node [] = some .dir
  parents : ∀ path name, (node (path ++ [name])).isSome = true → node path = some .dir
  named : ∀ path name, (node (path ++ [name])).isSome = true → ValidName name

/-! ### The gate -/

/-- The directories that `requireLogin` leaves open. -/
def openDirs : List String := ["assets", "css", "js", "fonts", "images"]

/-- The extensions that `requireLogin` leaves open. -/
def openExtensions : List String :=
  ["js", "css", "png", "jpg", "jpeg", "gif", "svg", "ico", "woff", "woff2", "ttf", "map"]

/-- `/\.(js|css|...)$/i` -/
def hasOpenExtension (path : List Char) : Bool :=
  openExtensions.any fun ext => ('.' :: ext.toList).isSuffixOf (path.map Char.toLower)

/-- The paths that `requireLogin` lets pass without a login. -/
def exempt (path : List Char) : Bool :=
  path == "/login".toList || path == "/logout".toList ||
    openDirs.any (fun dir => ("/" ++ dir ++ "/").toList.isPrefixOf path) ||
    hasOpenExtension path || "/api/system/".toList.isPrefixOf path

inductive Response where
  /-- `res.redirect` -/
  | found (location : String)
  /-- The redirect of `express.static` for a directory. -/
  | moved (location : List Char)
  | unauthorized (error : String)
  | file (path : FilePath) (content : String)
  /-- What `res.sendFile` passes on when there is no such file. -/
  | failed
  /-- Left to what comes behind. -/
  | next
  deriving DecidableEq, Repr

/-- `requireLogin`; `none` is `next()`. -/
def requireLogin (isAuthenticated : Bool) (path : List Char) : Option Response :=
  if exempt path then none
  else if isAuthenticated then none
  else if "/api/".toList.isPrefixOf path then some (.unauthorized "Chưa đăng nhập")
  else some (.found "/login")

/-! ### The file server -/

/-- `UP_PATH_REGEXP` on a normalised path. -/
def leadsUp (path : FilePath) : Bool :=
  path.any fun name => (name.splitOn '\\').any (· == ['.', '.'])

/-- What `send` looks for: the index of a directory, or an entry, perhaps with a slash behind its
name. -/
inductive Lookup where
  | index (dir : FilePath)
  | entry (path : FilePath) (slash : Bool)

/-- The first part of `pipe`: `none` is an error below 500, which is passed on. -/
def locate (path : List Char) : Option Lookup :=
  match decodeURIComponent path with
  | none => none
  | some decoded =>
    if '\x00' ∈ decoded then none
    else
      let names := normalizeSegments decoded
      let slash := decoded.getLast? = some '/'
      if leadsUp names then none
      -- only a dotfile at the end is ignored
      else if !slash && names.getLast?.any (·.head? == some '.') then none
      else if path.getLast? = some '/' then some (.index names)
      else some (.entry names slash)

/-- `collapseLeadingSlashes` -/
def collapseLeadingSlashes (path : List Char) : List Char :=
  if 1 < (path.takeWhile (· = '/')).length then '/' :: path.dropWhile (· = '/') else path

/-- `express.static`; `none` is `next()`. -/
def serveStatic (tree : Tree) (path : List Char) : Option Response :=
  match locate path with
  | none => none
  | some (.index dir) =>
    match tree.node (dir ++ ["index.html".toList]) with
    | some (.file content) => some (.file (dir ++ ["index.html".toList]) content)
    | _ => none
  | some (.entry names slash) =>
    match tree.node names with
    | some .dir => some (.moved (collapseLeadingSlashes (path ++ ['/'])))
    | some (.file content) => if slash then none else some (.file names content)
    | none => none

/-! ### The pages -/

/-- The route of a path: letter case and a slash at the end do not matter. -/
def routes (route : String) (path : List Char) : Bool :=
  path.map Char.toLower == route.toList || path.map Char.toLower == (route ++ "/").toList

def loginPage : FilePath := ["html".toList, "login.html".toList]

def indexPage : FilePath := ["html".toList, "index.html".toList]

/-- `res.sendFile` -/
def sendFile (tree : Tree) (path : FilePath) : Response :=
  match tree.node path with
  | some (.file content) => .file path content
  | _ => .failed

/-- The page routes. -/
def pages (tree : Tree) (path : List Char) : Response :=
  if path = [] ∨ path = ['/'] then .found "/index.html"
  else if routes "/login" path then sendFile tree loginPage
  else if routes "/index.html" path then sendFile tree indexPage
  else if routes "/logout" path then .found "/login"
  else .next

/-- The answer to a request. -/
def respond (isAuthenticated : Bool) (tree : Tree) (path : List Char) : Response :=
  match requireLogin isAuthenticated path with
  | some response => response
  | none =>
    match serveStatic tree path with
    | some response => response
    | none => pages tree path

/-! ### What the gate is for -/

/-- A path under one of the open directories. -/
def underOpenDir : FilePath → Bool
  | dir :: _ :: _ => openDirs.any (·.toList == dir)
  | _ => false

/-- A file that is for logged-in users only. -/
def Protected (path : FilePath) : Prop :=
  path ≠ [] ∧ underOpenDir path = false ∧ hasOpenExtension (['/'].intercalate path) = false ∧
    path ≠ loginPage

/-- Trees that differ only in protected files. -/
def Alike (tree tree' : Tree) : Prop :=
  ∀ path, tree.node path = tree'.node path ∨
    Protected path ∧ tree.node path ≠ some .dir ∧ tree'.node path ≠ some .dir

/-- The file that a path stands for, if it is one. -/
def target (path : List Char) : Option FilePath :=
  match locate path with
  | some (.index dir) => some (dir ++ ["index.html".toList])
  | some (.entry names false) => some names
  | _ => none

/-! ### Every path -/

section Paths

variable {tree tree' : Tree} {path : List Char} {file : FilePath}

theorem not_protected_loginPage : ¬Protected loginPage := fun secret => secret.2.2.2 rfl

theorem Alike.eq (alike : Alike tree tree') (plain : ¬Protected file) :
    tree.node file = tree'.node file :=
  (alike file).resolve_right fun differ => plain differ.1

theorem prefix_lower {start : List Char} (fixed : start.map Char.toLower = start)
    (starts : start.isPrefixOf path = true) : start.isPrefixOf (path.map Char.toLower) = true := by
  rw [List.isPrefixOf_iff_prefix] at starts ⊢
  have mapped := starts.map Char.toLower
  rwa [fixed] at mapped

/-- The open paths are in lower case, up to the extension. -/
theorem exempt_lower {shape : List Char} (lower : path.map Char.toLower = shape)
    (fixed : shape.map Char.toLower = shape) (passes : exempt path = true) : exempt shape = true := by
  have extension : hasOpenExtension path = hasOpenExtension shape := by
    rw [hasOpenExtension, hasOpenExtension, lower, fixed]
  have dirs : ∀ dir ∈ openDirs, ("/" ++ dir ++ "/").toList.isPrefixOf path = true →
      ("/" ++ dir ++ "/").toList.isPrefixOf shape = true := by
    intro dir member starts
    have plain : ∀ dir ∈ openDirs,
        ("/" ++ dir ++ "/").toList.map Char.toLower = ("/" ++ dir ++ "/").toList := by decide
    rw [← lower]
    exact prefix_lower (plain dir member) starts
  have api : "/api/system/".toList.isPrefixOf path = true →
      "/api/system/".toList.isPrefixOf shape = true := by
    rw [← lower]
    exact prefix_lower (by decide)
  simp only [exempt, Bool.or_eq_true, beq_iff_eq, List.any_eq_true] at passes ⊢
  rcases passes with (((login | logout) | ⟨dir, member, starts⟩) | suffix) | system
  · rw [← lower, login]
    exact .inl (.inl (.inl (.inl (by decide))))
  · rw [← lower, logout]
    exact .inl (.inl (.inl (.inr (by decide))))
  · exact .inl (.inl (.inr ⟨dir, member, dirs dir member starts⟩))
  · exact .inl (.inr (extension.symm.trans suffix))
  · exact .inr (api system)

/-- The page for logged-in users is not on an open path. -/
theorem not_index_of_exempt (passes : exempt path = true) : routes "/index.html" path = false := by
  by_contra index
  rw [Bool.not_eq_false] at index
  have shapes : path.map Char.toLower = "/index.html".toList ∨
      path.map Char.toLower = ("/index.html" ++ "/").toList := by
    simpa only [routes, Bool.or_eq_true, beq_iff_eq] using index
  rcases shapes with lower | lower
  · exact absurd (exempt_lower lower (by decide) passes) (by decide)
  · exact absurd (exempt_lower lower (by decide) passes) (by decide)

theorem pages_alike (alike : Alike tree tree') (passes : exempt path = true) :
    pages tree path = pages tree' path := by
  unfold pages sendFile
  rw [alike.eq not_protected_loginPage, not_index_of_exempt passes]
  rfl

theorem requireLogin_refuses (stops : exempt path = false) :
    ∃ response, requireLogin false path = some response := by
  unfold requireLogin
  rw [stops]
  by_cases api : "/api/".toList.isPrefixOf path = true
  · exact ⟨_, if_pos api⟩
  · exact ⟨_, if_neg api⟩

/-- The file server does not tell trees apart that agree on what the path stands for. -/
theorem serveStatic_alike (alike : Alike tree tree')
    (plain : ∀ file, target path = some file → ¬Protected file) :
    serveStatic tree path = serveStatic tree' path := by
  unfold target at plain
  unfold serveStatic
  split
  · rfl
  · rename_i dir found
    rw [found] at plain
    rw [alike.eq (plain _ rfl)]
  · rename_i names slash found
    rw [found] at plain
    rcases alike names with same | ⟨secret, notDir, notDir'⟩
    · rw [same]
    · cases slash with
      | false => exact absurd secret (plain _ rfl)
      | true =>
        -- a file whose name is followed by a slash is not found either way
        cases here : tree.node names with
        | none => cases there : tree'.node names with
          | none => rfl
          | some node => cases node with
            | dir => exact absurd there notDir'
            | file content => rfl
        | some node => cases node with
          | dir => exact absurd here notDir
          | file content => cases there : tree'.node names with
            | none => rfl
            | some node => cases node with
              | dir => exact absurd there notDir'
              | file content => rfl

end Paths

/-! ### Trees with one file -/

/-- The entries of a tree with one file. -/
def entriesOf (file : FilePath) (content : String) (path : FilePath) : Option Node :=
  if path = file then some (.file content) else if path <+: file then some .dir else none

theorem prefix_of_entriesOf {file path : FilePath} {content : String}
    (there : (entriesOf file content path).isSome = true) : path <+: file := by
  unfold entriesOf at there
  split at there
  · rename_i same
    rw [same]
  · split at there
    · assumption
    · exact absurd there (by simp)

/-- A file and the directories on the way to it. -/
def singleFile (file : FilePath) (content : String) (nonempty : file ≠ [])
    (names : ∀ name ∈ file, ValidName name) : Tree where
  node := entriesOf file content
  root := by
    rw [entriesOf, if_neg (Ne.symm nonempty), if_pos List.nil_prefix]
  parents := by
    intro path name there
    have inside := prefix_of_entriesOf there
    have shorter : path ≠ file := by
      intro same
      have lengths := inside.length_le
      rw [List.length_append, List.length_singleton, same] at lengths
      omega
    rw [entriesOf, if_neg shorter, if_pos ((List.prefix_append path [name]).trans inside)]
  named := by
    intro path name there
    exact names name ((prefix_of_entriesOf there).subset (by simp))

theorem alike_singleFile {file : FilePath} (secret : Protected file)
    (names : ∀ name ∈ file, ValidName name) (content content' : String) :
    Alike (singleFile file content secret.1 names) (singleFile file content' secret.1 names) := by
  intro path
  by_cases here : path = file
  · right
    simp [singleFile, entriesOf, here, secret]
  · left
    simp [singleFile, entriesOf, here]

theorem not_leadsUp {names : FilePath} (stays : leadsUp names = false) {name : Name}
    (member : name ∈ names) : name ≠ ['.', '.'] := by
  rintro rfl
  simp only [leadsUp, List.any_eq_false] at stays
  exact stays _ member (by decide)

/-- What a path leads to has names that a tree can have. -/
theorem locate_names {path : List Char} {lookup : Lookup} (found : locate path = some lookup) :
    ∃ names, (∀ name ∈ names, ValidName name) ∧
      (lookup = .index names ∨ ∃ slash, lookup = .entry names slash) := by
  unfold locate at found
  split at found
  · exact absurd found (by simp)
  rename_i text _
  split at found
  · exact absurd found (by simp)
  rename_i noNull
  dsimp only at found
  split at found
  · exact absurd found (by simp)
  rename_i stays
  have names : ∀ name ∈ normalizeSegments text, ValidName name := fun name member =>
    normalizeSegments_mem member noNull (not_leadsUp (by simpa using stays) member)
  split at found
  · exact absurd found (by simp)
  split at found
  · exact ⟨_, names, .inl (Option.some.inj found).symm⟩
  · exact ⟨_, names, .inr ⟨_, (Option.some.inj found).symm⟩⟩

/-- So has what a path stands for, and it is served. -/
theorem serveStatic_target {path : List Char} {file : FilePath} (found : target path = some file) :
    (∀ name ∈ file, ValidName name) ∧ ∀ tree content, tree.node file = some (.file content) →
      serveStatic tree path = some (.file file content) := by
  unfold target at found
  split at found
  · rename_i dir located
    obtain ⟨names, valid, ⟨⟨⟩⟩ | ⟨_, ⟨⟩⟩⟩ := locate_names located
    cases found
    constructor
    · intro name member
      rcases List.mem_append.mp member with inside | last
      · exact valid name inside
      · rw [List.mem_singleton.mp last]
        exact ⟨by decide, by decide, by decide, by decide, by decide⟩
    · intro tree content node
      simp only [serveStatic, located, node]
  · rename_i names' located
    obtain ⟨names, valid, ⟨⟨⟩⟩ | ⟨_, ⟨⟩⟩⟩ := locate_names located
    cases found
    constructor
    · exact valid
    · intro tree content node
      simp [serveStatic, located, node]
  · exact absurd found (by simp)

/-- A request without a login learns nothing of the protected files exactly when the gate stops
it, or its path does not stand for one of them. -/
theorem gate_conceals_iff (path : List Char) :
    (∀ tree tree', Alike tree tree' → respond false tree path = respond false tree' path) ↔
      exempt path = false ∨ ∀ file, target path = some file → ¬Protected file := by
  constructor
  · intro conceals
    by_contra revealed
    rw [not_or, Bool.not_eq_false, not_forall] at revealed
    obtain ⟨passes, file, stands⟩ := revealed
    rw [Classical.not_imp, not_not] at stands
    obtain ⟨found, secret⟩ := stands
    obtain ⟨names, served⟩ := serveStatic_target found
    have same := conceals _ _ (alike_singleFile secret names "a" "b")
    have stored : ∀ content, (singleFile file content secret.1 names).node file = some (.file content) :=
      fun content => if_pos rfl
    simp only [respond, requireLogin, passes, if_true, served _ _ (stored _)] at same
    exact absurd same (by simp)
  · intro condition tree tree' alike
    cases passes : exempt path with
    | false =>
      obtain ⟨response, refused⟩ := requireLogin_refuses passes
      simp only [respond, refused]
    | true =>
      have plain := condition.resolve_left (by simp [passes])
      simp only [respond, serveStatic_alike alike plain, pages_alike alike passes]

theorem protected_indexPage : Protected indexPage := ⟨by decide, by decide, by decide, by decide⟩

theorem indexPage_names : ∀ name ∈ indexPage, ValidName name := by
  intro name member
  simp only [indexPage, List.mem_cons, List.not_mem_nil, or_false] at member
  rcases member with rfl | rfl
  · exact ⟨by decide, by decide, by decide, by decide, by decide⟩
  · exact ⟨by decide, by decide, by decide, by decide, by decide⟩

/-- `/css/../html/index.html` passes the gate as a path under `/css/` and stands for the page. -/
theorem gate_reveals : ∃ tree tree', Alike tree tree' ∧
    respond false tree "/css/../html/index.html".toList ≠
      respond false tree' "/css/../html/index.html".toList := by
  refine ⟨_, _, alike_singleFile protected_indexPage indexPage_names "a" "b", ?_⟩
  decide +kernel

end FirewallCore.WebUI
