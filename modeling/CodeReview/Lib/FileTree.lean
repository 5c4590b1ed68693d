import Mathlib.Algebra.GroupWithZero.Nat
import Mathlib.Algebra.Order.BigOperators.Group.List
import Mathlib.Data.List.Infix
import Mathlib.Tactic.Common

/-!
# File trees

A file system as a program sees it: directories, files and symbolic links below one root.  There are
two ways to look up a path.  The system walks it name by name and goes on inside a link where it
meets one; it gives up after a number of links, and refuses names and paths that are too long.  A
program that resolves the links itself reads one after the other, and knows no such number.

* `Tree.walk_append` : a walk along two paths is a walk along the first, and one from there;
* `Tree.isEnd_of_real` : what is resolved is a directory or a file;
* `Tree.walk_of_real` : **what is resolved by hand, the system finds in the same place, or gives
  up**;
* `Tree.walk_below` : the names below a directory lead to what stands there.
-/

namespace FileTree

/-- What a name in a directory stands for. -/
inductive Entry (α : Type) where
  | file (content : α)
  | dir
  | link (absolute : Bool) (target : List String)
  deriving DecidableEq, Repr

/-- The names from the root down to an entry, without links and dots. -/
abbrev Place := List String

/-- How many bytes a name can have. -/
def nameMax : ℕ := 255

/-- How many bytes a path can have. -/
def pathMax : ℕ := 4095

/-- The bytes of an absolute path. -/
def pathBytes (path : List String) : ℕ := (path.map fun name => name.utf8ByteSize + 1).sum

/-- A name that a directory can hold. -/
structure IsName (name : String) : Prop where
  plain : name ∉ ["", ".", ".."]
  oneName : '/' ∉ name.toList
  text : '\x00' ∉ name.toList
  short : name.utf8ByteSize ≤ nameMax

instance (name : String) : Decidable (IsName name) :=
  decidable_of_iff (name ∉ ["", ".", ".."] ∧ '/' ∉ name.toList ∧ '\x00' ∉ name.toList ∧
    name.utf8ByteSize ≤ nameMax) ⟨fun ⟨h₁, h₂, h₃, h₄⟩ => ⟨h₁, h₂, h₃, h₄⟩,
      fun h => ⟨h.plain, h.oneName, h.text, h.short⟩⟩

/-- The entries by place.  What stands below a place stands in a directory. -/
structure Tree (α : Type) where
  entries : List (Place × Entry α)
  isDir_root : entries.lookup [] = some .dir
  isDir_parent : ∀ e ∈ entries, e.1 ≠ [] → entries.lookup e.1.dropLast = some .dir
  isName : ∀ e ∈ entries, ∀ name ∈ e.1, IsName name

/-- Why a path is not found: nothing is there, or it cannot be asked for. -/
inductive Failure where
  | missing
  | tooLong
  deriving DecidableEq, Repr

namespace Tree

variable {α : Type} (t : Tree α)

/-- The entry at a place. -/
def entry (place : Place) : Option (Entry α) := t.entries.lookup place

/-- There is a directory at the place. -/
def isDir (place : Place) : Bool :=
  match t.entry place with
  | some .dir => true
  | _ => false

/-! ### Looking up a path -/

/-- How many links one walk follows before it is given up as a loop. -/
def maxLinks : ℕ := 40

/-- Why there is no entry with the name. -/
def absence (name : String) : Failure := if nameMax < name.utf8ByteSize then .tooLong else .missing

/-- A walk along the names of a path, up to the first link; `follow` goes on in the directory of the
link, or at the root.  It ends at a place, with the number of links that may still be followed. -/
def walkFrom (links : ℕ) (follow : Place → List String → Except Failure (Place × ℕ)) :
    Place → List String → Except Failure (Place × ℕ)
  | place, [] => .ok (place, links)
  | place, name :: rest =>
    -- nothing is below a file, not even a dot
    if t.isDir place = false then .error .missing
    else if name = "" ∨ name = "." then walkFrom links follow place rest
    else if name = ".." then walkFrom links follow place.dropLast rest
    else
      match t.entry (place ++ [name]) with
      | none => .error (absence name)
      | some (.link absolute target) => follow (if absolute then [] else place) (target ++ rest)
      | some _ => walkFrom links follow (place ++ [name]) rest

/-- A walk that follows at most so many links. -/
def walk : ℕ → Place → List String → Except Failure (Place × ℕ)
  | 0 => t.walkFrom 0 fun _ _ => .error .missing
  | n + 1 => t.walkFrom (n + 1) (walk n)

/-- A name of the path has a NUL. -/
def hasNul (path : List String) : Bool := path.any fun name => '\x00' ∈ name.toList

/-- What the system finds under an absolute path.  A path with a NUL does not reach it. -/
def stat (path : List String) : Except Failure Place :=
  if hasNul path then .error .missing
  else if pathMax < pathBytes path then .error .tooLong
  else (t.walk maxLinks [] path).map Prod.fst

/-- The names of a path resolved one after the other; `follow` resolves the target of a link. -/
def realFrom (follow : Place → List String → Option Place) : Place → List String → Option Place
  | place, [] => some place
  | place, name :: rest =>
    if name = "" ∨ name = "." then realFrom follow place rest
    else if name = ".." then realFrom follow place.dropLast rest
    else if pathMax < pathBytes (place ++ [name]) then none
    else
      match t.entry (place ++ [name]) with
      | none => none
      | some (.link absolute target) =>
        (follow (if absolute then [] else place) target).bind fun real => realFrom follow real rest
      | some _ => realFrom follow (place ++ [name]) rest

/-- The names of a path resolved, with at most so many links inside one another. -/
def real : ℕ → Place → List String → Option Place
  | 0 => t.realFrom fun _ _ => none
  | n + 1 => t.realFrom (real n)

/-- The place of an absolute path with the links resolved.  A link inside itself is a loop, so they
are nested no deeper than there are entries. -/
def realpath (path : List String) : Option Place := t.real t.entries.length [] path

/-! ### The entries of a tree -/

@[simp] theorem entry_nil : t.entry [] = some .dir := t.isDir_root

variable {t}

theorem isDir_iff {place : Place} : t.isDir place = true ↔ t.entry place = some .dir := by
  rw [isDir]
  rcases t.entry place with - | - | - | - <;> simp

/-- The parent of an entry is a directory; the root is its own. -/
theorem isDir_dropLast {place : Place} {e : Entry α} (h : t.entry place = some e) :
    t.entry place.dropLast = some .dir := by
  by_cases hroot : place = []
  · simp [hroot]
  · obtain ⟨before, after, hentries, -⟩ := List.lookup_eq_some_iff.1 h
    exact t.isDir_parent (place, e) (by simp [hentries]) hroot

/-- What stands above an entry is a directory. -/
theorem isDir_of_append {place : Place} {names : List String} (hne : names ≠ []) {e : Entry α}
    (h : t.entry (place ++ names) = some e) : t.entry place = some .dir := by
  induction names using List.reverseRecOn generalizing e with
  | nil => exact absurd rfl hne
  | append_singleton names name ih =>
    have hparent : t.entry (place ++ names) = some .dir := by
      rw [← List.append_assoc] at h
      simpa using isDir_dropLast h
    by_cases hnames : names = []
    · simpa [hnames] using hparent
    · exact ih hnames hparent

/-- An entry at which a lookup can end. -/
def IsEnd (t : Tree α) (q : Place) : Prop :=
  t.entry q = some .dir ∨ ∃ content, t.entry q = some (.file content)

theorem IsEnd.exists_entry {place : Place} (h : t.IsEnd place) : ∃ e, t.entry place = some e := by
  rcases h with h | ⟨content, h⟩ <;> exact ⟨_, h⟩

theorem isEnd_dropLast {place : Place} (h : t.IsEnd place) : t.IsEnd place.dropLast := by
  obtain ⟨e, he⟩ := h.exists_entry
  exact .inl (isDir_dropLast he)

theorem isEnd_of_append {place : Place} {names : List String} (h : t.IsEnd (place ++ names)) :
    t.IsEnd place := by
  by_cases hnames : names = []
  · rwa [hnames, List.append_nil] at h
  · obtain ⟨e, he⟩ := h.exists_entry
    exact .inl (isDir_of_append hnames he)

theorem isName_of_isEnd {place : Place} (h : t.IsEnd place) {name : String} (hname : name ∈ place) :
    IsName name := by
  obtain ⟨e, he⟩ := h.exists_entry
  obtain ⟨before, after, hentries, -⟩ := List.lookup_eq_some_iff.1 he
  exact t.isName (place, e) (by simp [hentries]) name hname

theorem pathBytes_mono {path path' : List String} (h : path <+: path') :
    pathBytes path ≤ pathBytes path' := by
  obtain ⟨rest, rfl⟩ := h
  rw [pathBytes, pathBytes, List.map_append, List.sum_append]
  exact Nat.le_add_right _ _

/-! ### Walks -/

theorem walkFrom_append {links : ℕ} {follow : Place → List String → Except Failure (Place × ℕ)}
    {more : List String} (hself : t.walk links = t.walkFrom links follow)
    (hfollow : ∀ place names, follow place (names ++ more) =
      follow place names >>= fun r => t.walk r.2 r.1 more) (place : Place) (names : List String) :
    t.walkFrom links follow place (names ++ more) =
      t.walkFrom links follow place names >>= fun r => t.walk r.2 r.1 more := by
  induction names generalizing place with
  | nil => exact congrFun (congrFun hself.symm place) more
  | cons name rest ih =>
    rw [List.cons_append, walkFrom, walkFrom]
    split_ifs with hdir hdot hup
    · rfl
    · exact ih _
    · exact ih _
    · cases t.entry (place ++ [name]) with
      | none => rfl
      | some e =>
        cases e with
        | link absolute target =>
          simp only
          rw [← List.append_assoc]
          exact hfollow _ _
        | file content => exact ih _
        | dir => exact ih _

/-- **A walk along two paths is a walk along the first, and one from there** with the links that are
left. -/
theorem walk_append (n : ℕ) (place : Place) (names more : List String) :
    t.walk n place (names ++ more) = t.walk n place names >>= fun r => t.walk r.2 r.1 more := by
  induction n generalizing place names with
  | zero => exact walkFrom_append rfl (fun _ _ => rfl) place names
  | succ n ih => exact walkFrom_append rfl ih place names

/-- **The names below a directory lead to what stands there**, when it is no link. -/
theorem walk_below {n : ℕ} {place : Place} {names : List String} (hend : t.IsEnd (place ++ names)) :
    t.walk n place names = .ok (place ++ names, n) := by
  have hfrom (links : ℕ) (follow : Place → List String → Except Failure (Place × ℕ)) :
      t.walkFrom links follow place names = .ok (place ++ names, links) := by
    induction names generalizing place with
    | nil => rw [walkFrom, List.append_nil]
    | cons name rest ih =>
      have hsplit : place ++ name :: rest = (place ++ [name]) ++ rest := by simp
      obtain ⟨e, he⟩ := hend.exists_entry
      have hdir : t.isDir place ≠ false := by
        rw [isDir_iff.2 (isDir_of_append (List.cons_ne_nil _ _) he)]
        decide
      have hplain := (isName_of_isEnd hend (List.mem_append_right _ List.mem_cons_self)).plain
      simp only [List.mem_cons, List.not_mem_nil, or_false, not_or] at hplain
      rw [hsplit] at hend ⊢
      rw [walkFrom, if_neg hdir, if_neg (not_or.2 ⟨hplain.1, hplain.2.1⟩), if_neg hplain.2.2]
      rcases isEnd_of_append hend with h | ⟨content, h⟩
      · rw [h]
        exact ih hend
      · rw [h]
        exact ih hend
  cases n with
  | zero => exact hfrom 0 _
  | succ n => exact hfrom (n + 1) _

/-! ### Resolved paths -/

/-- A path is resolved one part after the other. -/
theorem real_append (n : ℕ) (place : Place) (names more : List String) :
    t.real n place (names ++ more) = (t.real n place names).bind fun q => t.real n q more := by
  have hfrom (follow : Place → List String → Option Place) :
      t.realFrom follow place (names ++ more) =
        (t.realFrom follow place names).bind fun q => t.realFrom follow q more := by
    induction names generalizing place with
    | nil => rfl
    | cons name rest ih =>
      rw [List.cons_append, realFrom, realFrom]
      split_ifs with hdot hup hlong
      · exact ih _
      · exact ih _
      · rfl
      · cases t.entry (place ++ [name]) with
        | none => rfl
        | some e =>
          cases e with
          | link absolute target =>
            simp only
            rw [Option.bind_assoc]
            exact congrArg _ (funext fun q => ih q)
          | file content => exact ih _
          | dir => exact ih _
  cases n with
  | zero => exact hfrom _
  | succ n => exact hfrom _

section

variable {P : Place → Prop} (hroot : P []) (hup : ∀ place, P place → P place.dropLast)
  (hname : ∀ place name, P place → pathBytes (place ++ [name]) ≤ pathMax →
    t.IsEnd (place ++ [name]) → P (place ++ [name]))
include hroot hup hname

theorem realFrom_induct {follow : Place → List String → Option Place}
    (hfollow : ∀ {place names q}, P place → follow place names = some q → P q)
    {place q : Place} {names : List String} (hplace : P place)
    (h : t.realFrom follow place names = some q) : P q := by
  induction names generalizing place with
  | nil => exact Option.some.inj h ▸ hplace
  | cons name rest ih =>
    rw [realFrom] at h
    split_ifs at h with hdot hdots hlong
    · exact ih hplace h
    · exact ih (hup place hplace) h
    · cases hentry : t.entry (place ++ [name]) with
      | none =>
        rw [hentry] at h
        cases h
      | some e =>
        rw [hentry] at h
        cases e with
        | link absolute target =>
          obtain ⟨real, hreal, h⟩ := Option.bind_eq_some_iff.1 h
          refine ih (hfollow ?_ hreal) h
          split_ifs
          · exact hroot
          · exact hplace
        | file content =>
          exact ih (hname place name hplace (not_lt.1 hlong) (.inr ⟨content, hentry⟩)) h
        | dir => exact ih (hname place name hplace (not_lt.1 hlong) (.inl hentry)) h

/-- What holds at the root and is kept by a step up and by a name that is no link holds where a path
is resolved to. -/
theorem real_induct {n : ℕ} {place q : Place} {names : List String} (hplace : P place)
    (h : t.real n place names = some q) : P q := by
  induction n generalizing place q names with
  | zero => exact realFrom_induct hroot hup hname (fun _ h => by cases h) hplace h
  | succ n ih => exact realFrom_induct hroot hup hname ih hplace h

end

/-- **What is resolved is a directory or a file.** -/
theorem isEnd_of_real {n : ℕ} {place q : Place} {names : List String} (hplace : t.IsEnd place)
    (h : t.real n place names = some q) : t.IsEnd q :=
  real_induct (P := t.IsEnd) (.inl t.entry_nil) (fun _ => isEnd_dropLast)
    (fun _ _ _ _ hend => hend) hplace h

/-- What is resolved has a path that the system takes. -/
theorem pathBytes_of_real {n : ℕ} {place q : Place} {names : List String}
    (hplace : pathBytes place ≤ pathMax) (h : t.real n place names = some q) :
    pathBytes q ≤ pathMax := by
  refine real_induct (P := fun q => pathBytes q ≤ pathMax) (Nat.zero_le _) ?_ ?_ hplace h
  · intro place hplace
    exact (pathBytes_mono (List.dropLast_prefix place)).trans hplace
  · exact fun _ _ _ hfits _ => hfits

/-- **The names below a directory resolve to what stands there**, when it is no link. -/
theorem real_below {n : ℕ} {place : Place} {names : List String}
    (hend : t.IsEnd (place ++ names)) (hfits : pathBytes (place ++ names) ≤ pathMax) :
    t.real n place names = some (place ++ names) := by
  have hfrom (follow : Place → List String → Option Place) :
      t.realFrom follow place names = some (place ++ names) := by
    induction names generalizing place with
    | nil => rw [realFrom, List.append_nil]
    | cons name rest ih =>
      have hsplit : place ++ name :: rest = (place ++ [name]) ++ rest := by simp
      have hplain := (isName_of_isEnd hend (List.mem_append_right _ List.mem_cons_self)).plain
      simp only [List.mem_cons, List.not_mem_nil, or_false, not_or] at hplain
      rw [hsplit] at hend hfits ⊢
      have hshort : pathBytes (place ++ [name]) ≤ pathMax :=
        (pathBytes_mono (List.prefix_append _ _)).trans hfits
      rw [realFrom, if_neg (not_or.2 ⟨hplain.1, hplain.2.1⟩), if_neg hplain.2.2,
        if_neg (not_lt.2 hshort)]
      rcases isEnd_of_append hend with h | ⟨content, h⟩
      · rw [h]
        exact ih hend hfits
      · rw [h]
        exact ih hend hfits
  cases n with
  | zero => exact hfrom _
  | succ n => exact hfrom _

/-! ### The two lookups -/

/-- The system gives up, or it ends at the place with at most so many links left. -/
def GivesUpOrEnds (n : ℕ) (q : Place) (r : Except Failure (Place × ℕ)) : Prop :=
  r = .error .missing ∨ ∃ k ≤ n, r = .ok (q, k)

theorem walkFrom_of_realFrom {n : ℕ} {follow' : Place → List String → Except Failure (Place × ℕ)}
    {follow : Place → List String → Option Place}
    (hfollow : ∀ {dir target rest mid q}, follow dir target = some mid →
      t.realFrom follow mid rest = some q → GivesUpOrEnds n q (follow' dir (target ++ rest)))
    {place q : Place} {names : List String} (h : t.realFrom follow place names = some q) :
    GivesUpOrEnds n q (t.walkFrom n follow' place names) := by
  induction names generalizing place with
  | nil =>
    obtain rfl := Option.some.inj h
    exact .inr ⟨n, le_rfl, rfl⟩
  | cons name rest ih =>
    rw [walkFrom]
    rw [realFrom] at h
    by_cases hdir : t.isDir place = false
    · rw [if_pos hdir]
      exact .inl rfl
    rw [if_neg hdir]
    split_ifs at h ⊢ with hdot hup hlong
    · exact ih h
    · exact ih h
    · cases hentry : t.entry (place ++ [name]) with
      | none =>
        rw [hentry] at h
        cases h
      | some e =>
        rw [hentry] at h
        cases e with
        | link absolute target =>
          obtain ⟨mid, hmid, h⟩ := Option.bind_eq_some_iff.1 h
          exact hfollow hmid h
        | file content => exact ih h
        | dir => exact ih h

/-- **What is resolved by hand, the system finds in the same place, or it gives up.**  The induction
is on the links that the system may follow; the target of one and the rest of the path share
them. -/
theorem walk_of_real {m n : ℕ} {place q : Place} {names : List String}
    (h : t.real m place names = some q) : GivesUpOrEnds n q (t.walk n place names) := by
  induction n using Nat.strong_induction_on generalizing m place names q with
  | _ n ih =>
    cases n with
    | zero =>
      cases m with
      | zero => exact walkFrom_of_realFrom (fun _ _ => .inl rfl) h
      | succ m => exact walkFrom_of_realFrom (fun _ _ => .inl rfl) h
    | succ n =>
      cases m with
      | zero => exact walkFrom_of_realFrom (fun hmid _ => by cases hmid) h
      | succ m =>
        refine walkFrom_of_realFrom (fun {dir target rest mid q} hmid hrest => ?_) h
        rw [walk_append]
        rcases ih n n.lt_succ_self hmid with hmissing | ⟨k, hk, hok⟩
        · rw [hmissing]
          exact .inl rfl
        · rw [hok]
          have hreal : t.real (m + 1) mid rest = some q := hrest
          refine (ih k (Nat.lt_succ_of_le hk) hreal).imp_right ?_
          rintro ⟨k', hk', hok'⟩
          exact ⟨k', hk'.trans (hk.trans n.le_succ), hok'⟩

/-- The system finds what is resolved from a path of its length, or gives up. -/
theorem stat_of_realpath {path : List String} {q : Place} (hnul : hasNul path = false)
    (hfits : pathBytes path ≤ pathMax) (h : t.realpath path = some q) :
    t.stat path = .error .missing ∨ t.stat path = .ok q := by
  rw [stat, hnul, if_neg Bool.false_ne_true, if_neg (not_lt.2 hfits)]
  rcases walk_of_real (n := maxLinks) h with hmissing | ⟨k, -, hok⟩
  · rw [hmissing]
    exact .inl rfl
  · rw [hok]
    exact .inr rfl

theorem stat_eq_ok {path : List String} {p : Place} (h : t.stat path = .ok p) :
    hasNul path = false ∧ pathBytes path ≤ pathMax ∧
      ∃ k, t.walk maxLinks [] path = .ok (p, k) := by
  unfold stat at h
  split_ifs at h with hnul hlong
  refine ⟨Bool.eq_false_iff.2 hnul, not_lt.1 hlong, ?_⟩
  cases hwalk : t.walk maxLinks [] path with
  | error e =>
    rw [hwalk] at h
    cases h
  | ok r =>
    rw [hwalk] at h
    exact ⟨r.2, congrArg _ (Prod.ext (Except.ok.inj h) rfl)⟩

/-- **A path resolves to the place where the system finds it.** -/
theorem eq_of_stat {path : List String} {p q : Place} (hstat : t.stat path = .ok p)
    (hreal : t.realpath path = some q) : q = p := by
  obtain ⟨hnul, hfits, -⟩ := stat_eq_ok hstat
  rcases stat_of_realpath hnul hfits hreal with hmissing | hok
  · rw [hmissing] at hstat
    cases hstat
  · exact Except.ok.inj (hok.symm.trans hstat)

theorem hasNul_of_isName {names : List String} (h : ∀ name ∈ names, IsName name) :
    hasNul names = false := by
  refine List.any_eq_false.2 fun name hname => ?_
  simpa using (h name hname).text

/-- A name in a directory that resolves makes no path too long. -/
theorem pathBytes_of_realpath {dir : Place} {name : String} {q : Place} (hdir : t.IsEnd dir)
    (hfits : pathBytes dir ≤ pathMax) (hname : IsName name)
    (h : t.realpath (dir ++ [name]) = some q) : pathBytes (dir ++ [name]) ≤ pathMax := by
  obtain ⟨hempty, hdot, hup⟩ : name ≠ "" ∧ name ≠ "." ∧ name ≠ ".." := by
    simpa using hname.plain
  have hreal : t.real t.entries.length [] dir = some ([] ++ dir) := real_below hdir hfits
  rw [realpath, real_append, hreal] at h
  have hfrom (follow : Place → List String → Option Place)
      (h : t.realFrom follow ([] ++ dir) [name] = some q) :
      pathBytes (dir ++ [name]) ≤ pathMax := by
    rw [realFrom, if_neg (not_or.2 ⟨hempty, hdot⟩), if_neg hup] at h
    split_ifs at h with hlong
    exact not_lt.1 hlong
  cases hn : t.entries.length with
  | zero =>
    rw [hn] at h
    exact hfrom _ h
  | succ n =>
    rw [hn] at h
    exact hfrom _ h

/-- The system finds what stands below a directory that it finds. -/
theorem stat_below {path below : List String} {root : Place} (h : t.stat path = .ok root)
    (hend : t.IsEnd (root ++ below)) (hfits : pathBytes (path ++ below) ≤ pathMax) :
    t.stat (path ++ below) = .ok (root ++ below) := by
  obtain ⟨hnul, -, k, hwalk⟩ := stat_eq_ok h
  have hnul' : hasNul (path ++ below) = false := by
    rw [hasNul, List.any_append, ← hasNul, ← hasNul, hnul, hasNul_of_isName fun name hname =>
      isName_of_isEnd hend (List.mem_append_right _ hname)]
    rfl
  rw [stat, hnul', if_neg Bool.false_ne_true, if_neg (not_lt.2 hfits), walk_append, hwalk]
  exact congrArg (Except.map Prod.fst) (walk_below hend)

theorem realpath_below {path below : List String} {root : Place}
    (h : t.realpath path = some root) (hend : t.IsEnd (root ++ below))
    (hfits : pathBytes (root ++ below) ≤ pathMax) :
    t.realpath (path ++ below) = some (root ++ below) := by
  have hreal : t.real t.entries.length [] path = some root := h
  rw [realpath, real_append, hreal]
  exact real_below hend hfits

end Tree

end FileTree
