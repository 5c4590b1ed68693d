import CodeReview.Handlers.Merge
import CodeReview.Py.Path

/-!
# Shard files

`handle_merge_specialist_outputs` writes each output to a file under two directories that are cut
from a digest.  The leaf id is the head of the file's name, as the planner recorded it.

* `shard_below_iff` : **the file lies below the specialists directory exactly when the id does not
  climb over the two shard directories, or comes back along the names of that directory**;
* `pendingWrites_below_iff` : the same for all files of one run.
-/

namespace CodeReview

open Py

/-! ### `sharding.py` -/

/-- The digits of `sha256(..).hexdigest()`. -/
structure HexDigest where
  digits : List Char
  length_eq : digits.length = 64
  hex : ∀ c ∈ digits, c ∈ "0123456789abcdef".toList

variable (sha256 : String → HexDigest)

/-- The text cut into pieces of the given lengths. -/
def cutPieces : List ℕ → List Char → List String
  | [], _ => []
  | n :: ns, cs => String.ofList (cs.take n) :: cutPieces ns (cs.drop n)

/-- `shard_segments`. -/
def shardSegments (key : String) (levels : List ℕ) : Result (List String) :=
  if 64 < levels.sum then .error .valueError
  else .ok (cutPieces levels (sha256 key).digits)

/-- `shard_path`. -/
def shardPath (root : List String) (key leafName : String) (levels : List ℕ) :
    Result (List String) := do
  let segments ← shardSegments sha256 key levels
  return (segments ++ [leafName]).foldl Path.join root

/-! ### The files of the handler -/

/-- `_coerce_absolute_project_root`. -/
def coerceAbsoluteProjectRoot (value : Value) (fallback : List String) : List String :=
  match value with
  | .str path => if Path.isAbsolute path then Path.parts path else fallback
  | _ => fallback

/-- `_resolve_storage_root`. -/
def resolveStorageRoot (projectRoot : List String) (override : Value) : List String :=
  coerceAbsoluteProjectRoot override (projectRoot ++ [".skill-code-review"])

/-- The directory of the shards. -/
def specialistsRoot (skillRoot : List String) (env : Dict) : List String :=
  let args := ensureDict (env.get "args")
  let projectRoot := coerceAbsoluteProjectRoot (args.get "project_root") skillRoot
  resolveStorageRoot projectRoot (args.get "storage_root") ++ ["specialists"]

/-- The file of one unit. -/
def unitShard (root : List String) (key : UnitKey) (iterN : ℕ) : Result (List String) :=
  shardPath sha256 root (key.1 ++ "/" ++ toString key.2) (shardName key iterN) [2, 5]

/-- The units with an output, each with the iteration that recorded it. -/
def writtenUnits (env : Dict) : List (UnitKey × ℕ) :=
  (dedupeEntries (resolveIterationPayloads env)).entries.filterMap fun e =>
    (stampedOutput e.1.1 e.2.entry).map fun _ => (e.1, e.2.iterN)

/-- `pending_writes`: where the handler writes. -/
def pendingWrites (skillRoot : List String) (env : Dict) : Result (List (List String)) :=
  (writtenUnits env).mapM fun u => unitShard sha256 (specialistsRoot skillRoot env) u.1 u.2

/-! ### The name of a shard file -/

theorem sep_not_mem_nat (n : ℕ) : '/' ∉ (toString n).toList := by
  intro h
  have hrepr : (toString n).toList = Nat.toDigits 10 n := Nat.toList_repr
  rw [hrepr] at h
  exact absurd (Nat.isDigit_of_mem_toDigits (by decide) (by decide) h) (by decide)

theorem sep_not_mem_int (n : ℤ) : '/' ∉ (toString n).toList := by
  rw [Int.toString_eq_repr, Int.repr_eq_if]
  split_ifs
  · exact sep_not_mem_nat n.toNat
  · simpa using sep_not_mem_nat (-n).toNat

/-- What follows the leaf id in the name of a shard file. -/
def shardSuffix (subIndex : ℤ) (iterN : ℕ) : String :=
  "__sub" ++ toString subIndex ++ "__iter" ++ toString iterN ++ ".json"

theorem shardName_eq (key : UnitKey) (iterN : ℕ) :
    shardName key iterN = key.1 ++ shardSuffix key.2 iterN := by
  simp [shardName, shardSuffix, String.append_assoc]

theorem sep_not_mem_shardSuffix (subIndex : ℤ) (iterN : ℕ) :
    '/' ∉ (shardSuffix subIndex iterN).toList := by
  simp only [shardSuffix, String.toList_append, List.mem_append, not_or]
  exact ⟨⟨⟨⟨by decide, sep_not_mem_int _⟩, by decide⟩, sep_not_mem_nat _⟩, by decide⟩

/-- The last part of the path of a shard file. -/
def IsFileName (part : String) : Prop := part.toList.getLast? = some 'n'

theorem isFileName_append (s : String) (subIndex : ℤ) (iterN : ℕ) :
    IsFileName (s ++ shardSuffix subIndex iterN) := by
  rw [IsFileName, shardSuffix, ← String.append_assoc, String.toList_append]
  exact List.getLast?_append_of_ne_nil _ (by decide)

theorem IsFileName.ne {part other : String} (h : IsFileName part)
    (hother : other.toList.getLast? ≠ some 'n') : part ≠ other := by
  rintro rfl
  exact hother h

/-- The directories of the name are those of the leaf id. -/
theorem parts_shardName (key : UnitKey) (iterN : ℕ) : ∃ last,
    Path.parts (shardName key iterN) = Path.dirParts key.1 ++ [last] ∧ IsFileName last := by
  have hparts {s : String} (hs : '/' ∉ s.toList) :
      Path.parts (s ++ shardSuffix key.2 iterN) = [s ++ shardSuffix key.2 iterN] := by
    have hname := isFileName_append s key.2 iterN
    refine Path.parts_of_not_mem ?_ (hname.ne (by decide)) (hname.ne (by decide))
    simpa using ⟨hs, sep_not_mem_shardSuffix key.2 iterN⟩
  rw [shardName_eq]
  rcases Path.exists_last key.1 with ⟨hsep, hdir⟩ | ⟨dir, last, hkey, hsep, hdir⟩
  · exact ⟨_, by rw [hparts hsep, hdir, List.nil_append], isFileName_append ..⟩
  · refine ⟨last ++ shardSuffix key.2 iterN, ?_, isFileName_append ..⟩
    rw [hdir, hkey, String.append_assoc, Path.parts_append_sep, hparts hsep]

theorem isAbsolute_shardName (key : UnitKey) (iterN : ℕ) :
    Path.isAbsolute (shardName key iterN) = Path.isAbsolute key.1 := by
  rw [shardName_eq, Path.isAbsolute, Path.isAbsolute, Text.startsWith, Text.startsWith,
    String.toList_append]
  cases key.1.toList with
  | nil =>
    simp only [shardSuffix, String.toList_append, List.append_assoc, List.nil_append]
    rfl
  | cons c cs => rfl

/-! ### The shard directories -/

/-- A name in a path: one part, and not the directory above. -/
def IsPart (name : String) : Prop :=
  (∀ root, Path.join root name = root ++ [name]) ∧ name ≠ ".."

/-- A piece of a digest is a name. -/
theorem isPart_hex {digits : List Char} (hne : digits ≠ [])
    (hhex : ∀ c ∈ digits, c ∈ "0123456789abcdef".toList) : IsPart (String.ofList digits) := by
  have hsep : '/' ∉ (String.ofList digits).toList := fun h =>
    absurd (hhex _ (String.toList_ofList ▸ h)) (by decide)
  have hdot : '.' ∉ (String.ofList digits).toList := fun h =>
    absurd (hhex _ (String.toList_ofList ▸ h)) (by decide)
  have hne' : String.ofList digits ≠ "" := fun h =>
    hne (by rw [← String.toList_ofList (l := digits), h]; rfl)
  have hparts : Path.parts (String.ofList digits) = [String.ofList digits] :=
    Path.parts_of_not_mem hsep hne' fun h => hdot (h ▸ by decide)
  have hrelative : Path.isAbsolute (String.ofList digits) = false := by
    rw [Path.isAbsolute, Text.startsWith, Bool.eq_false_iff, ne_eq, List.isPrefixOf_iff_prefix]
    exact fun h => hsep (h.mem (by decide))
  refine ⟨fun root => ?_, fun h => hdot (h ▸ by decide)⟩
  simp [Path.join, hrelative, hparts]

theorem isPart_of_mem_cutPieces {levels : List ℕ} {digits : List Char}
    (hlen : levels.sum ≤ digits.length) (hpos : 0 ∉ levels)
    (hhex : ∀ c ∈ digits, c ∈ "0123456789abcdef".toList) :
    ∀ name ∈ cutPieces levels digits, IsPart name := by
  induction levels generalizing digits with
  | nil => simp [cutPieces]
  | cons n ns ih =>
    rw [List.sum_cons] at hlen
    obtain ⟨hn, hns⟩ := not_or.1 (List.mem_cons.not.1 hpos)
    refine List.forall_mem_cons.2 ⟨isPart_hex ?_ fun c hc => hhex c (List.mem_of_mem_take hc), ?_⟩
    · rw [ne_eq, List.take_eq_nil_iff, not_or, ← List.length_eq_zero_iff]
      omega
    · refine ih ?_ hns fun c hc => hhex c (List.mem_of_mem_drop hc)
      rw [List.length_drop]
      omega

theorem foldl_join {names : List String} (h : ∀ name ∈ names, IsPart name) (root : List String) :
    names.foldl Path.join root = root ++ names := by
  induction names generalizing root with
  | nil => simp
  | cons name names ih =>
    obtain ⟨hname, hnames⟩ := List.forall_mem_cons.1 h
    rw [List.foldl_cons, hname.1, ih hnames, List.append_assoc, List.singleton_append]

/-- The two shard directories of a unit. -/
theorem unitShard_eq (root : List String) (key : UnitKey) (iterN : ℕ) :
    ∃ first second, (∀ name ∈ [first, second], name ≠ "..") ∧
      unitShard sha256 root key iterN =
        .ok (Path.join (root ++ [first, second]) (shardName key iterN)) := by
  set digest := sha256 (key.1 ++ "/" ++ toString key.2) with hdigest
  have hpieces : ∀ name ∈ cutPieces [2, 5] digest.digits, IsPart name :=
    isPart_of_mem_cutPieces (by rw [digest.length_eq]; decide) (by decide) digest.hex
  refine ⟨_, _, fun name hname => (hpieces name hname).2, ?_⟩
  have hfold := foldl_join hpieces root
  rw [unitShard, shardPath, shardSegments, if_neg (by decide), Result.ok_bind, ← hdigest,
    Result.pure_eq_ok, List.foldl_append, hfold]
  rfl

/-! ### Containment -/

/-- The path lies below the directory. -/
def Below (root path : List String) : Prop := root <+: path ∧ path ≠ root

/-- Read as a path, the part of the id up to its last separator does not climb over the two shard
directories, or comes back along the names of `root` that it climbed over; an absolute one starts
with the names of `root`. -/
def StaysInside (root : List String) (leafId : String) : Prop :=
  let dir := LexPath.reduce ".." (Path.dirParts leafId)
  if Path.isAbsolute leafId then root <+: dir.names
  else dir.ups ≤ 2 ∨ root.rtake (dir.ups - 2) <+: dir.names

instance (root : List String) (leafId : String) : Decidable (StaysInside root leafId) := by
  unfold StaysInside
  infer_instance

/-- A directory is no file of a shard. -/
theorem prefix_concat_fileName_iff {dirs names : List String} {root last : String}
    (hroot : root.toList.getLast? ≠ some 'n') (hlast : IsFileName last) :
    dirs ++ [root] <+: names ++ [last] ↔ dirs ++ [root] <+: names := by
  rw [List.prefix_concat_iff, or_iff_right]
  intro h
  exact hlast.ne hroot (List.append_inj_right' h rfl |> List.singleton_inj.1).symm

theorem below_fileName_iff {dirs names : List String} {last : String} (hlast : IsFileName last) :
    Below (dirs ++ ["specialists"]) (names ++ [last]) ↔
      dirs ++ ["specialists"] <+: names ++ [last] := by
  refine and_iff_left ?_
  intro h
  exact hlast.ne (by decide) (List.singleton_inj.1 (List.append_inj_right' h rfl))

/-- Where a shard file lies, by the reduced form of the id's directories. -/
theorem below_join_iff {storage : List String} {first second : String}
    (hshard : ∀ name ∈ [first, second], name ≠ "..") (key : UnitKey) (iterN : ℕ) :
    Below (Path.normpath (storage ++ ["specialists"]))
        (Path.normpath (Path.join (storage ++ ["specialists"] ++ [first, second])
          (shardName key iterN))) ↔
      StaysInside (Path.normpath (storage ++ ["specialists"])) key.1 := by
  have hroot : Path.normpath (storage ++ ["specialists"]) =
      Path.normpath storage ++ ["specialists"] := LexPath.normalise_append_names _ (by decide)
  have hdirs : Path.normpath (storage ++ ["specialists"] ++ [first, second]) =
      Path.normpath storage ++ ["specialists"] ++ [first, second] := by
    rw [← hroot]
    exact LexPath.normalise_append_names _ hshard
  obtain ⟨last, hparts, hlast⟩ := parts_shardName key iterN
  have hup : last ≠ ".." := hlast.ne (by decide)
  have hreduce := LexPath.reduce_concat (Path.dirParts key.1) hup
  rw [← hparts] at hreduce
  rw [Path.join, isAbsolute_shardName, hroot, StaysInside]
  generalize LexPath.reduce ".." (Path.dirParts key.1) = dir at hreduce ⊢
  split_ifs with habs
  · -- an absolute id replaces the whole path
    have hpath : Path.normpath (Path.parts (shardName key iterN)) = dir.names ++ [last] := by
      rw [Path.normpath, LexPath.normalise_eq_names, hreduce]
    rw [hpath, below_fileName_iff hlast, prefix_concat_fileName_iff (by decide) hlast]
  · have hpath : Path.normpath (storage ++ ["specialists"] ++ [first, second] ++
        Path.parts (shardName key iterN)) =
          LexPath.Reduced.apply ⟨dir.ups, dir.names ++ [last]⟩
            (Path.normpath storage ++ ["specialists"] ++ [first, second]) := by
      rw [← hreduce, ← hdirs]
      exact LexPath.normalise_append ..
    have hlastName : LexPath.Reduced.apply ⟨dir.ups, dir.names ++ [last]⟩
        (Path.normpath storage ++ ["specialists"] ++ [first, second]) =
          (Path.normpath storage ++ ["specialists"] ++ [first, second]).rdrop dir.ups ++
            dir.names ++ [last] := by
      rw [LexPath.Reduced.apply, ← List.append_assoc]
    rw [hpath, hlastName, below_fileName_iff hlast, ← hlastName, LexPath.prefix_apply_iff]
    refine or_congr_right' ?_
    intro hups
    -- above the two shard directories the last name to come back to is the root's
    obtain ⟨k, hk⟩ : ∃ k, dir.ups - 2 = k + 1 := by
      change ¬ dir.ups ≤ 2 at hups
      exact ⟨dir.ups - 3, by omega⟩
    change (Path.normpath storage ++ ["specialists"]).rtake (dir.ups - 2) <+: dir.names ++
      [last] ↔ _
    rw [hk, List.rtake_concat_succ, prefix_concat_fileName_iff (by decide) hlast]

theorem below_unitShard_iff {sha256 : String → HexDigest} {storage path : List String}
    {key : UnitKey} {iterN : ℕ}
    (h : unitShard sha256 (storage ++ ["specialists"]) key iterN = .ok path) :
    Below (Path.normpath (storage ++ ["specialists"])) (Path.normpath path) ↔
      StaysInside (Path.normpath (storage ++ ["specialists"])) key.1 := by
  obtain ⟨first, second, hshard, hpath⟩ :=
    unitShard_eq sha256 (storage ++ ["specialists"]) key iterN
  obtain rfl := Except.ok.inj (hpath.symm.trans h)
  exact below_join_iff hshard key iterN

/-- **When the shard of a unit stays inside the specialists directory.** -/
theorem shard_below_iff (sha256 : String → HexDigest) (storage : List String) (key : UnitKey)
    (iterN : ℕ) :
    (∃ path, unitShard sha256 (storage ++ ["specialists"]) key iterN = .ok path ∧
        Below (Path.normpath (storage ++ ["specialists"])) (Path.normpath path)) ↔
      StaysInside (Path.normpath (storage ++ ["specialists"])) key.1 := by
  obtain ⟨first, second, -, hpath⟩ := unitShard_eq sha256 (storage ++ ["specialists"]) key iterN
  constructor
  · rintro ⟨path, hok, hbelow⟩
    exact (below_unitShard_iff hok).1 hbelow
  · intro hstays
    exact ⟨_, hpath, (below_unitShard_iff hpath).2 hstays⟩

/-- The digest of zeros. -/
def zeroDigest : HexDigest where
  digits := List.replicate 64 '0'
  length_eq := List.length_replicate
  hex c hc := by simp [List.eq_of_mem_replicate hc]

/-- **Three steps up leave the directory**, and a leading separator leaves the storage. -/
theorem climbing_id_escapes :
    (unitShard (fun _ => zeroDigest) ["run", "specialists"] ("../../../evil", 0) 1 =
        .ok ["run", "specialists", "00", "00000", "..", "..", "..", "evil__sub0__iter1.json"] ∧
      Path.normpath ["run", "specialists", "00", "00000", "..", "..", "..",
        "evil__sub0__iter1.json"] = ["run", "evil__sub0__iter1.json"] ∧
      ¬ Below ["run", "specialists"] ["run", "evil__sub0__iter1.json"]) ∧
    unitShard (fun _ => zeroDigest) ["run", "specialists"] ("/etc/cron.d/job", 0) 1 =
        .ok ["etc", "cron.d", "job__sub0__iter1.json"] ∧
      ¬ Below ["run", "specialists"] ["etc", "cron.d", "job__sub0__iter1.json"] := by
  refine ⟨⟨by decide, by decide, fun h => ?_⟩, by decide, fun h => ?_⟩
  · exact absurd h.1 (by decide)
  · exact absurd h.1 (by decide)

/-! ### The files of a run -/

/-- **The files of a run stay inside exactly when every id that it writes does.** -/
theorem pendingWrites_below_iff {sha256 : String → HexDigest} {skillRoot : List String} {env : Dict}
    {paths : List (List String)} (h : pendingWrites sha256 skillRoot env = .ok paths) :
    (∀ path ∈ paths, Below (Path.normpath (specialistsRoot skillRoot env)) (Path.normpath path)) ↔
      ∀ u ∈ writtenUnits env,
        StaysInside (Path.normpath (specialistsRoot skillRoot env)) u.1.1 := by
  constructor
  · intro hbelow u hu
    obtain ⟨path, hpath, hu⟩ := Result.exists_of_mapM_left h hu
    exact (below_unitShard_iff hu).1 (hbelow path hpath)
  · intro hstays path hpath
    obtain ⟨u, hu, hunit⟩ := Result.exists_of_mapM_right h hpath
    exact (below_unitShard_iff hunit).2 (hstays u hu)

end CodeReview
