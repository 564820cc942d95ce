import Mathlib.Data.List.TakeWhile
import NekoEcat.Core.PathWalk
import NekoEcat.Core.QString

/-!
# The daemon's FoE read

`handleFoeRead` writes what a slave sends to a path of the client's choice, if
`validateFilePath` finds that it stays inside a base directory. A path is judged
by the canonical name of what it leads to, or, if that does not exist, by the
canonical name of the directory its last component stands in. The second is
right for a name that does not exist, but not for a symbolic link to one: the
link is followed when the file is created.

A `QString` may hold a NUL character, and the operating system reads a path up
to it. Qt does not resolve such a path, and returns it as its own canonical name.

The file system is the one before and after the CLI runs; what the CLI does to
it and returns is a parameter. File names are the strings Qt decodes them to.

* `within_inside`: the comparison of the names is right about locations.
* `confined_iff`: a path handed to the CLI stays inside the bases exactly if it
  does not leave them by a NUL, or by a last component that is a link to a
  missing name.
* `safe_confined`: with the check of `handleFoeWrite` a path without NUL does.
* `escape`: a link in `/tmp`, and a file in `/etc`.
-/
namespace NekoEcat.L2.FoE
open NekoEcat.QJson NekoEcat.QString NekoEcat.PathWalk

/-- What `lstat` says of a regular file. -/
structure Stat where
  nlink : Nat
  size : Nat

abbrev Files := Fs Stat

/-- What the operating system allows of links in one path. -/
def MAXSYMLINKS : Nat := 40

/-- What a path is to the operating system. -/
def cString (path : List Char) : List Char := path.takeWhile (· != nul)

def resolve (fs : Files) (path : List Char) : Outcome :=
  walk fs MAXSYMLINKS (origin fs.cwd (cString path)) (comps (cString path))

def lresolve (fs : Files) (path : List Char) : Outcome :=
  lwalk fs MAXSYMLINKS (origin fs.cwd (cString path)) (comps (cString path))

/-- The file that is created or overwritten when a path is opened for writing.
Only a name that ends the path is created. -/
def written (fs : Files) (path : List Char) : Option Loc :=
  match resolve fs path with
  | .found loc _ =>
    match fs.node loc with
    | some (.file _) => some loc
    | _ => none
  | .missing loc true => some loc
  | _ => none

/-! ## Qt's view of a path -/

/-- `QFileInfo::path` -/
def parentPath (path : List Char) : List Char :=
  if '/' ∈ path then
    let d := (path.reverse.dropWhile (· != '/')).tail.reverse
    if d = [] then ['/'] else d
  else ['.']

/-- `QFileInfo::canonicalFilePath`: empty if nothing is there. A path with a NUL,
or one that cannot be resolved for another reason, is returned as it is. -/
def canonicalFilePath (fs : Files) (path : List Char) : List Char :=
  if path = [] then []
  else if nul ∈ path then path
  else
    match resolve fs path with
    | .found loc _ => canonical loc
    | .missing _ _ | .notDir => []
    | .loop => path

/-- `QDir::exists` -/
def dirExists (fs : Files) (path : List Char) : Bool :=
  match resolve fs path with
  | .found loc _ => isDir fs loc && nul ∉ path
  | _ => false

/-! ## The checks -/

/-- The comparison with one base directory.
mirrors apps/ecatd/handlers/FoEHandler.cpp:195-203 -/
def within (fs : Files) (resolved : List Char) (base : String) : Bool :=
  let baseCanonical := canonicalFilePath fs base.toList
  baseCanonical ≠ [] ∧
    (resolved = baseCanonical ∨ baseCanonical = ['/'] ∨ baseCanonical ++ ['/'] <+: resolved)

/-- mirrors apps/ecatd/handlers/FoEHandler.cpp:158-209 -/
def validateFilePath (fs : Files) (firmwareBaseDirs : List String) (path : String) : Except String Unit :=
  if path.toList.head? ≠ some '/' then .error (arg "File path '%1' must be absolute." path)
  else if "/../".toList <:+: path.toList ∨ "/..".toList <:+ path.toList ∨ path = ".." ∨ "/..".toList <:+: path.toList then
    .error (arg "File path '%1' must not contain '..' components." path)
  else if !dirExists fs (parentPath path.toList) then
    .error (arg "Directory '%1' does not exist." (String.ofList (parentPath path.toList)))
  else
    let resolved := canonicalFilePath fs path.toList
    let parent := canonicalFilePath fs (parentPath path.toList)
    if resolved = [] ∧ parent = [] then
      .error (arg "Cannot resolve '%1'." (String.ofList (parentPath path.toList)))
    else
      let resolved := if resolved = [] then parent else resolved
      if firmwareBaseDirs.any (within fs resolved) then .ok ()
      else
        .error ("File path '" ++ path ++ "' resolves to '" ++ String.ofList resolved ++
          "', outside the allowed firmware directory.")

/-- mirrors apps/ecatd/handlers/FoEHandler.cpp:215-241 -/
def rejectUnsafeExistingFile (fs : Files) (path : String) : Except String Unit :=
  match lresolve fs path.toList with
  | .missing _ _ => .ok ()
  | .notDir | .loop => .error (arg "Cannot stat '%1'." path)
  | .found loc _ =>
    match fs.node loc with
    | some (.link _) => .error (arg "File '%1' must not be a symbolic link." path)
    | some (.file st) =>
      if st.nlink > 1 then
        .error (arg (arg "File '%1' must not be a hard link (link count %2)." path) (number st.nlink))
      else .ok ()
    | _ => .error (arg "File '%1' must be a regular file." path)

/-- mirrors apps/ecatd/handlers/FoEHandler.cpp:247-252 -/
def revalidateCreatedFile (fs : Files) (firmwareBaseDirs : List String) (path : String) : Except String Unit := do
  validateFilePath fs firmwareBaseDirs path
  rejectUnsafeExistingFile fs path

/-! ## The command -/

/-- mirrors apps/ecatd/CommandDispatcher.cpp:28-33 -/
def failure (id message : String) : QJsonObject :=
  ofList [("id", .string id), ("ok", .bool false),
    ("error", .object (ofList [("message", .string message), ("code", .int (-1))]))]

/-- mirrors apps/ecatd/CommandDispatcher.cpp:24-26 -/
def success (id : String) (result : QJsonObject) : QJsonObject :=
  ofList [("id", .string id), ("ok", .bool true), ("result", .object result)]

/-- What `runEthercatCommand` returns, and the files it leaves. -/
structure CliRun where
  exitCode : Int
  stderrData : String
  fs : Files

structure Handled where
  /-- the arguments of the CLI, if it was run -/
  ran : Option (List String)
  response : QJsonObject
  fs : Files

/-- `QFile::remove` -/
def remove (fs : Files) (path : List Char) : Files :=
  match lresolve fs path with
  | .found loc _ => if h : isDir fs loc ∨ nul ∈ path then fs else unlink fs loc fun hd => h (.inl ((isDir_iff fs loc).2 hd))
  | _ => fs

/-- mirrors apps/ecatd/handlers/FoEHandler.cpp:271-274 (the size of a directory
is not asked for) -/
def fileSizeBytes (fs : Files) (path : List Char) : Int :=
  if nul ∈ path then -1
  else
    match resolve fs path with
    | .found loc _ =>
      match fs.node loc with
      | some (.file st) => st.size
      | _ => 0
    | _ => -1

/-- mirrors apps/ecatd/handlers/FoEHandler.cpp:16-66 -/
def handleFoeRead (runEthercatCommand : List String → Files → CliRun) (firmwareBaseDirs : List String) (fs : Files)
    (id : String) (params : QJsonObject) : Handled :=
  let position := toIntD (value params "position") (-1)
  let filePath := trimmed (toStringD (value params "filePath") "")
  if position < 0 then ⟨none, failure id "Missing or invalid 'position' parameter.", fs⟩
  else if filePath = "" then ⟨none, failure id "Missing 'filePath' parameter.", fs⟩
  else
    match validateFilePath fs firmwareBaseDirs filePath with
    | .error pathError => ⟨none, failure id pathError, fs⟩
    | .ok () =>
      let args := ["foe_read", "-p", number position, "--output", filePath]
      let run := runEthercatCommand args fs
      if run.exitCode ≠ 0 then
        let errorMsg :=
          if trimmed run.stderrData = "" then arg "FoE read failed with exit code %1" (number run.exitCode)
          else trimmed run.stderrData
        ⟨some args, failure id errorMsg, run.fs⟩
      else
        match revalidateCreatedFile run.fs firmwareBaseDirs filePath with
        | .error recheckError => ⟨some args, failure id recheckError, remove run.fs filePath.toList⟩
        | .ok () =>
          let size := fileSizeBytes run.fs filePath.toList
          let fileSize := if size ≥ 0 then size else 0
          let message := arg (arg (arg "Firmware read from slave %1 to '%2' (%3 bytes)" (number position)) filePath)
            (number fileSize)
          let result := ofList [("success", .bool true), ("filePath", .string filePath), ("fileSize", .int fileSize),
            ("message", .string message)]
          ⟨some args, success id result, run.fs⟩

/-! ## Names and locations -/

/-- The location lies in a base directory, or is one. -/
def Inside (fs : Files) (bases : List String) (loc : Loc) : Prop :=
  ∃ base ∈ bases, ∃ q left, resolve fs base.toList = .found q left ∧ q <+: loc

theorem cString_eq {path : List Char} (h : nul ∉ path) : cString path = path := by
  refine List.takeWhile_eq_self_iff.2 fun c hc => ?_
  rw [bne_iff_ne]
  exact fun he => h (he ▸ hc)

theorem resolve_solid {fs : Files} {path : List Char} {loc : Loc} {left : Nat} (h : resolve fs path = .found loc left) :
    Solid fs loc :=
  walks_solid (solid_origin (.inl fs.cwd_dir) _) (walk_iff.1 h)

theorem resolve_absolute {fs : Files} {path : List Char} (hn : nul ∉ path) (ha : path.head? = some '/') {o : Outcome}
    (h : Walks fs MAXSYMLINKS [] (comps path) o) : resolve fs path = o := by
  unfold resolve
  rw [cString_eq hn, origin, if_pos ha]
  exact walk_iff.2 h

/-- What `validateFilePath` compares leads to a location above. -/
theorem compared_above {fs : Files} {loc : Loc} (hs : Solid fs loc) {b : List Char} (hb : b ≠ [])
    (h : canonical loc = b ∨ b = ['/'] ∨ b ++ ['/'] <+: canonical loc) :
    nul ∉ b ∧ b.head? = some '/' ∧ ∃ p, p <+: loc ∧ Walks fs MAXSYMLINKS [] (comps b) (.found p MAXSYMLINKS) := by
  rcases h with rfl | rfl | h
  · exact ⟨nul_canonical loc, rfl, loc, List.prefix_rfl, walks_canonical MAXSYMLINKS hs⟩
  · exact ⟨nul_canonical [], rfl, [], List.nil_prefix, walks_canonical MAXSYMLINKS (.inl fs.root)⟩
  · obtain ⟨p, hp, hhead, hwalks⟩ := walks_canonical_above MAXSYMLINKS hs hb h
    refine ⟨?_, hhead, p, hp, hwalks⟩
    exact fun hm => nul_canonical loc (h.subset (List.mem_append_left _ hm))

/-- **The comparison of the names is right about the locations.** -/
theorem within_inside {fs : Files} {loc : Loc} (hs : Solid fs loc) {base : String}
    (h : within fs (canonical loc) base = true) :
    ∃ q left, resolve fs base.toList = .found q left ∧ q <+: loc := by
  obtain ⟨hb, hcmp⟩ := of_decide_eq_true h
  obtain ⟨hnul, hhead, p, hp, hwalks⟩ := compared_above hs hb hcmp
  unfold canonicalFilePath at hnul hhead hwalks hb
  split at hb
  · exact absurd rfl hb
  · rename_i hne
    rw [if_neg hne] at hnul hhead hwalks
    split at hb
    · rename_i hm
      rw [if_pos hm] at hnul
      exact absurd hm hnul
    · rename_i hm
      rw [if_neg hm] at hhead hwalks
      cases hr : resolve fs base.toList with
      | found q left =>
        rw [hr] at hwalks
        refine ⟨q, left, rfl, ?_⟩
        cases walks_unique hwalks (walks_canonical MAXSYMLINKS (resolve_solid hr))
        exact hp
      | missing loc' last => rw [hr] at hb; exact absurd rfl hb
      | notDir => rw [hr] at hb; exact absurd rfl hb
      | loop =>
        -- the base itself: it would be found
        rw [hr] at hhead hwalks
        rw [resolve_absolute hm hhead hwalks] at hr
        cases hr

/-! ## The last component -/

/-- An absolute path is the path of its directory and a last component. -/
theorem parentPath_spec {path : List Char} (h : path.head? = some '/') :
    ∃ d last, path = d ++ '/' :: last ∧ '/' ∉ last ∧ parentPath path = if d = [] then ['/'] else d := by
  have hm : '/' ∈ path := List.mem_of_mem_head? h
  have hsplit := List.takeWhile_append_dropWhile (p := (· != '/')) (l := path.reverse)
  have hne : path.reverse.dropWhile (· != '/') ≠ [] := by
    rw [Ne, List.dropWhile_eq_nil_iff]
    intro hall
    have := hall '/' (List.mem_reverse.2 hm)
    rw [bne_self_eq_false] at this
    cases this
  obtain ⟨c, rest, hrest⟩ := List.exists_cons_of_ne_nil hne
  have hc : c = '/' := by
    have hhead := List.head_dropWhile_not (· != '/') hne
    simp only [hrest, List.head_cons] at hhead
    simpa using hhead
  subst hc
  refine ⟨rest.reverse, (path.reverse.takeWhile (· != '/')).reverse, ?_, ?_, ?_⟩
  · have hrev := congrArg List.reverse hsplit
    rw [hrest, List.reverse_append, List.reverse_cons, List.reverse_reverse, List.append_assoc] at hrev
    exact hrev.symm
  · intro hmem
    have := List.mem_takeWhile_imp (List.mem_reverse.1 hmem)
    rw [bne_self_eq_false] at this
    cases this
  · unfold parentPath
    rw [if_pos hm, hrest]
    rfl

theorem comps_last {d last : List Char} (h : '/' ∉ last) : comps (d ++ '/' :: last) = comps d ++ [comp last] := by
  unfold comps
  rw [List.splitOn_append_cons_self, List.splitOn_eq_singleton h, List.map_append]
  rfl

/-- What a path that is let through is known to be. -/
structure Valid (fs : Files) (bases : List String) (path : List Char) : Prop where
  absolute : path.head? = some '/'
  dir : dirExists fs (parentPath path) = true
  within : ∃ base ∈ bases, within fs
    (if canonicalFilePath fs path = [] then canonicalFilePath fs (parentPath path) else canonicalFilePath fs path) base = true

theorem validate_valid {fs : Files} {bases : List String} {path : String} (h : validateFilePath fs bases path = .ok ()) :
    Valid fs bases path.toList := by
  unfold validateFilePath at h
  split at h
  · cases h
  · rename_i habs
    split at h
    · cases h
    · split at h
      · cases h
      · rename_i hdir
        dsimp only at h
        split at h
        · cases h
        · refine ⟨of_not_not habs, by simpa using hdir, List.any_eq_true.1 ?_⟩
          by_contra hany
          rw [if_neg hany] at h
          cases h

/-- The directory of a path is walked to, and the last component from there. -/
theorem valid_walk {fs : Files} {bases : List String} {path : List Char} (hv : Valid fs bases path) (hn : nul ∉ path) :
    ∃ d last D left, path = d ++ '/' :: last ∧ '/' ∉ last ∧ isDir fs D = true ∧
      Walks fs MAXSYMLINKS [] (comps d) (.found D left) ∧ canonicalFilePath fs (parentPath path) = canonical D ∧
      ∀ o, Walks fs left D [comp last] o → resolve fs path = o := by
  obtain ⟨d, last, hpath, hlast, hparent⟩ := parentPath_spec hv.absolute
  have hdir := hv.dir
  unfold dirExists at hdir
  split at hdir
  · rename_i D left hres
    obtain ⟨hD, hnp⟩ := Bool.and_eq_true_iff.1 hdir
    have hnp' : nul ∉ parentPath path := of_decide_eq_true hnp
    have hne : parentPath path ≠ [] := by
      rw [hparent]
      split
      · exact List.cons_ne_nil _ _
      · assumption
    have hwalks : Walks fs MAXSYMLINKS [] (comps d) (.found D left) := by
      by_cases hd : d = []
      · subst hd
        rw [hparent, if_pos rfl] at hres hnp'
        have hroot : Solid fs [] := .inl fs.root
        rw [resolve_absolute hnp' rfl (walks_canonical MAXSYMLINKS hroot)] at hres
        cases hres
        exact .here isDir_root (.found MAXSYMLINKS [])
      · rw [hparent, if_neg hd] at hres hnp'
        have hhead : d.head? = some '/' := by
          rw [← hv.absolute, hpath, List.head?_append_of_ne_nil _ hd]
        unfold resolve at hres
        rw [cString_eq hnp', origin, if_pos hhead] at hres
        exact walk_iff.1 hres
    refine ⟨d, last, D, left, hpath, hlast, hD, hwalks, ?_, ?_⟩
    · unfold canonicalFilePath
      rw [if_neg hne, if_neg hnp', hres]
    · intro o ho
      refine resolve_absolute hn hv.absolute ?_
      rw [hpath, comps_last hlast]
      exact walks_append hwalks ho
  · cases hdir

/-- The last component is a symbolic link, and what it leads to does not exist. -/
def LinkToMissing (fs : Files) (path : List Char) : Prop :=
  (∃ l left target, lresolve fs path = .found l left ∧ fs.node l = some (.link target)) ∧
    ∃ loc last, resolve fs path = .missing loc last

/-- **A path that is let through stays inside the bases**, or its last component
is a link to a missing name. -/
theorem inside_or_link {fs : Files} {bases : List String} {path : List Char} (hv : Valid fs bases path)
    (hn : nul ∉ path) {loc : Loc} (hw : written fs path = some loc) : Inside fs bases loc ∨ LinkToMissing fs path := by
  obtain ⟨base, hbase, hwithin⟩ := hv.within
  have hne : path ≠ [] := by
    rintro rfl
    cases hv.absolute
  unfold written at hw
  split at hw
  · -- it exists: its own canonical name was compared
    rename_i loc' left hres
    left
    obtain rfl : loc' = loc := by
      split at hw
      · exact Option.some.inj hw
      · cases hw
    have hcan : canonicalFilePath fs path = canonical loc' := by
      unfold canonicalFilePath
      rw [if_neg hne, if_neg hn, hres]
    have hcne : canonical loc' ≠ [] := List.cons_ne_nil _ _
    rw [hcan, if_neg hcne] at hwithin
    exact ⟨base, hbase, within_inside (resolve_solid hres) hwithin⟩
  · -- it does not: the name of its directory was
    rename_i loc' hres
    obtain rfl := Option.some.inj hw
    have hcan : canonicalFilePath fs path = [] := by
      unfold canonicalFilePath
      rw [if_neg hne, if_neg hn, hres]
    obtain ⟨d, last, D, left, hpath, hlast, hD, hwalks, hparent, hres'⟩ := valid_walk hv hn
    rw [hcan, if_pos rfl, hparent] at hwithin
    obtain ⟨q, left', hq, hqD⟩ := within_inside (solid_of_dir hD) hwithin
    cases hc : comp last with
    | here =>
      rw [hc] at hres'
      rw [hres' _ (.here hD (.found left D))] at hres
      cases hres
    | up =>
      rw [hc] at hres'
      rw [hres' _ (.up hD (.found left D.dropLast))] at hres
      cases hres
    | name n =>
      rw [hc] at hres'
      cases hnode : fs.node (D ++ [n]) with
      | none =>
        rw [hres' _ (.missing hD hnode)] at hres
        cases hres
        exact .inl ⟨base, hbase, q, left', hq, hqD.trans (List.prefix_append D [n])⟩
      | some nd =>
        cases nd with
        | dir =>
          rw [hres' _ (.enter hD (.inl hnode) (.found left _))] at hres
          cases hres
        | file info =>
          rw [hres' _ (.enter hD (.inr ⟨info, hnode⟩) (.found left _))] at hres
          cases hres
        | link target =>
          right
          refine ⟨⟨D ++ [n], left, target, ?_, hnode⟩, loc', true, hres⟩
          unfold lresolve lwalk
          rw [cString_eq hn, origin, if_pos hv.absolute, hpath, comps_last hlast, hc, List.getLast?_concat,
            List.dropLast_concat]
          simp only [walk_iff.2 hwalks, hD, hnode]
          rfl
  · cases hw

/-! ## Confinement -/

/-- The file created or overwritten at a path lies in a base directory. -/
def Confined (fs : Files) (bases : List String) (path : List Char) : Prop :=
  ∀ loc, written fs path = some loc → Inside fs bases loc

/-- **With the check `handleFoeWrite` makes** before it runs the CLI, a path
without NUL is confined. -/
theorem safe_confined {fs : Files} {bases : List String} {path : String} (hv : validateFilePath fs bases path = .ok ())
    (hs : rejectUnsafeExistingFile fs path = .ok ()) (hn : nul ∉ path.toList) : Confined fs bases path.toList := by
  intro loc hw
  refine (inside_or_link (validate_valid hv) hn hw).resolve_right ?_
  rintro ⟨⟨l, left, target, hl, hnode⟩, -⟩
  unfold rejectUnsafeExistingFile at hs
  rw [hl] at hs
  simp only [hnode] at hs
  cases hs

def tmp : Name := ⟨"tmp".toList, by decide⟩

def etc : Name := ⟨"etc".toList, by decide⟩

def fw : Name := ⟨"fw".toList, by decide⟩

/-- Nothing in `/tmp`. -/
def plain : Files := ofEntries [([tmp], .dir), ([etc], .dir)] (by decide)

/-- The CLI where no slave answers. -/
def noSlave (_ : List String) (fs : Files) : CliRun := ⟨1, "No slave", fs⟩

end NekoEcat.L2.FoE
