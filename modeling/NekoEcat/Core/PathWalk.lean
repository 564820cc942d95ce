import Mathlib.Data.List.Infix

/-!
# Path resolution

A file system is a map from locations (the names on the way from the root) to
directories, files and symbolic links. A path is resolved component by
component; a link is replaced by its target, at most a given number of times.
Opening a path and computing its canonical name walk the same way. They differ
in what they do where the walk ends at a name that does not exist.

* `Walks`, `walk_iff`: resolution as a relation, and the function that decides it.
* `walks_append`: a path is walked in two parts.
* `walks_solid`: a walk ends at a directory or a file.
* `walks_canonical`: the canonical name of a location leads there.
* `walks_canonical_above`: so does what the canonical name starts with, to a
  directory above.
-/
namespace NekoEcat.PathWalk

def nul : Char := Char.ofNat 0

/-- A name in a directory. -/
def Proper (n : List Char) : Prop := n ≠ [] ∧ n ≠ ['.'] ∧ n ≠ ['.', '.'] ∧ '/' ∉ n ∧ nul ∉ n

instance (n : List Char) : Decidable (Proper n) := inferInstanceAs (Decidable (_ ∧ _ ∧ _ ∧ _ ∧ _))

abbrev Name := { n : List Char // Proper n }

abbrev Loc := List Name

inductive Node (φ : Type) where
  | dir
  | file (info : φ)
  | link (target : List Char)

/-- What exists stands in a directory. -/
structure Fs (φ : Type) where
  node : Loc → Option (Node φ)
  cwd : Loc
  root : node [] = some .dir
  parent : ∀ p n, node (p ++ [n]) ≠ none → node p = some .dir
  cwd_dir : node cwd = some .dir

/-! ## Paths -/

inductive Comp where
  /-- empty or `.` -/
  | here
  /-- `..` -/
  | up
  | name (n : Name)
  deriving DecidableEq

def comp (s : List Char) : Comp :=
  if h : Proper s then .name ⟨s, h⟩ else if s = ['.', '.'] then .up else .here

def comps (path : List Char) : List Comp := (path.splitOn '/').map comp

/-- Where the walk of a path starts. -/
def origin (cur : Loc) (path : List Char) : Loc := if path.head? = some '/' then [] else cur

/-- The canonical name of a location. -/
def canonical (loc : Loc) : List Char := '/' :: ['/'].intercalate (loc.map (·.1))

inductive Outcome where
  /-- the location, and how many more links could be followed -/
  | found (loc : Loc) (links : Nat)
  /-- a name that does not exist, in a directory; `last` if nothing follows it -/
  | missing (loc : Loc) (last : Bool)
  | notDir
  | loop
  deriving DecidableEq

section
variable {φ : Type} (fs : Fs φ)

def isDir (loc : Loc) : Bool :=
  match fs.node loc with
  | some .dir => true
  | _ => false

theorem isDir_iff (loc : Loc) : isDir fs loc = true ↔ fs.node loc = some .dir := by
  unfold isDir
  split
  · rename_i h
    exact ⟨fun _ => h, fun _ => rfl⟩
  · rename_i h
    exact ⟨(by intro hf; cases hf), fun hd => absurd hd h⟩

/-- The walk, with what is done at a link. -/
def go (follow : Loc → List Comp → Outcome) (links : Nat) (cur : Loc) : List Comp → Outcome
  | [] => .found cur links
  | .here :: cs => if isDir fs cur then go follow links cur cs else .notDir
  | .up :: cs => if isDir fs cur then go follow links cur.dropLast cs else .notDir
  | .name n :: cs =>
    if isDir fs cur then
      match fs.node (cur ++ [n]) with
      | none => .missing (cur ++ [n]) cs.isEmpty
      | some (.link target) => follow (origin cur target) (comps target ++ cs)
      | some _ => go follow links (cur ++ [n]) cs
    else .notDir

/-- At most `links` links are followed. -/
def walk : Nat → Loc → List Comp → Outcome
  | 0 => go fs (fun _ _ => .loop) 0
  | links + 1 => go fs (walk links) (links + 1)

/-- The walk that does not follow a link in the last component (`lstat`,
`unlink`). -/
def lwalk (links : Nat) (cur : Loc) (cs : List Comp) : Outcome :=
  match cs.getLast? with
  | some (.name n) =>
    match walk fs links cur cs.dropLast with
    | .found d left =>
      if isDir fs d then
        if (fs.node (d ++ [n])).isSome then .found (d ++ [n]) left else .missing (d ++ [n]) true
      else .notDir
    | .missing loc _ => .missing loc false
    | o => o
  | _ => walk fs links cur cs

/-- Remove what is not a directory. -/
def unlink (loc : Loc) (h : fs.node loc ≠ some .dir) : Fs φ where
  node := fun p => if p = loc then none else fs.node p
  cwd := fs.cwd
  root := by
    have hne : [] ≠ loc := fun he => h (he ▸ fs.root)
    rw [if_neg hne]
    exact fs.root
  parent := by
    intro p n hn
    have hd : fs.node p = some .dir := by
      refine fs.parent p n fun he => hn ?_
      rw [he, ite_self]
    have hne : p ≠ loc := fun he => h (he ▸ hd)
    rw [if_neg hne]
    exact hd
  cwd_dir := by
    have hne : fs.cwd ≠ loc := fun he => h (he ▸ fs.cwd_dir)
    rw [if_neg hne]
    exact fs.cwd_dir

/-- What stands at a location, with the root above all entries. -/
def place (entries : List (Loc × Node φ)) (p : Loc) : Option (Node φ) :=
  if p = [] then some .dir else (entries.find? fun e => e.1 = p).map (·.2)

/-- Every entry stands in a directory. -/
def rooted (entries : List (Loc × Node φ)) : Bool :=
  entries.all fun e =>
    match place entries e.1.dropLast with
    | some .dir => true
    | _ => false

/-- The file system with these entries. -/
def ofEntries (entries : List (Loc × Node φ)) (h : rooted entries = true) : Fs φ where
  node := place entries
  cwd := []
  root := if_pos rfl
  parent := by
    intro p n hn
    have hne : p ++ [n] ≠ [] := List.append_ne_nil_of_right_ne_nil p (List.cons_ne_nil n [])
    rw [place, if_neg hne] at hn
    obtain ⟨e, he⟩ := Option.ne_none_iff_exists'.1 fun hf => hn (Option.map_eq_none_iff.2 hf)
    have hp : e.1 = p ++ [n] := by simpa using List.find?_some he
    have hdir := List.all_eq_true.1 h e (List.mem_of_find?_eq_some he)
    rw [hp, List.dropLast_concat] at hdir
    split at hdir
    · assumption
    · cases hdir
  cwd_dir := if_pos rfl

/-- The location is that of a directory or a file. -/
def Solid (loc : Loc) : Prop := fs.node loc = some .dir ∨ ∃ info, fs.node loc = some (.file info)

/-! ## Walks -/

/-- Resolution as a relation, a rule for each thing that can happen. -/
inductive Walks : Nat → Loc → List Comp → Outcome → Prop
  | found (links : Nat) (cur : Loc) : Walks links cur [] (.found cur links)
  | notDir {links : Nat} {cur : Loc} {c : Comp} {cs : List Comp} (hd : isDir fs cur = false) :
      Walks links cur (c :: cs) .notDir
  | here {links : Nat} {cur : Loc} {cs : List Comp} {o : Outcome} (hd : isDir fs cur = true)
      (h : Walks links cur cs o) : Walks links cur (.here :: cs) o
  | up {links : Nat} {cur : Loc} {cs : List Comp} {o : Outcome} (hd : isDir fs cur = true)
      (h : Walks links cur.dropLast cs o) : Walks links cur (.up :: cs) o
  | missing {links : Nat} {cur : Loc} {n : Name} {cs : List Comp} (hd : isDir fs cur = true)
      (hn : fs.node (cur ++ [n]) = none) : Walks links cur (.name n :: cs) (.missing (cur ++ [n]) cs.isEmpty)
  | enter {links : Nat} {cur : Loc} {n : Name} {cs : List Comp} {o : Outcome} (hd : isDir fs cur = true)
      (hs : Solid fs (cur ++ [n])) (h : Walks links (cur ++ [n]) cs o) : Walks links cur (.name n :: cs) o
  | follow {links : Nat} {cur : Loc} {n : Name} {cs : List Comp} {target : List Char} {o : Outcome}
      (hd : isDir fs cur = true) (hl : fs.node (cur ++ [n]) = some (.link target))
      (h : Walks links (origin cur target) (comps target ++ cs) o) : Walks (links + 1) cur (.name n :: cs) o
  | loop {cur : Loc} {n : Name} {cs : List Comp} {target : List Char} (hd : isDir fs cur = true)
      (hl : fs.node (cur ++ [n]) = some (.link target)) : Walks 0 cur (.name n :: cs) .loop

variable {fs}

/-- The scan of the components keeps to the rules if following a link does. -/
theorem walks_go {follow : Loc → List Comp → Outcome} {links : Nat}
    (hf : ∀ {cur : Loc} {n : Name} {cs : List Comp} {target : List Char}, isDir fs cur = true →
      fs.node (cur ++ [n]) = some (.link target) →
        Walks fs links cur (.name n :: cs) (follow (origin cur target) (comps target ++ cs)))
    (cur : Loc) (cs : List Comp) : Walks fs links cur cs (go fs follow links cur cs) := by
  induction cs generalizing cur with
  | nil => exact .found links cur
  | cons c cs ih =>
    cases hd : isDir fs cur with
    | false =>
      have hgo : go fs follow links cur (c :: cs) = .notDir := by
        cases c <;> simp [go, hd]
      rw [hgo]
      exact .notDir hd
    | true =>
      cases c with
      | here =>
        rw [go, if_pos hd]
        exact .here hd (ih cur)
      | up =>
        rw [go, if_pos hd]
        exact .up hd (ih cur.dropLast)
      | name n =>
        rw [go, if_pos hd]
        split
        · rename_i hn
          exact .missing hd hn
        · rename_i target hl
          exact hf hd hl
        · rename_i nd hnl hnd
          refine .enter hd ?_ (ih (cur ++ [n]))
          cases nd with
          | dir => exact .inl hnd
          | file info => exact .inr ⟨info, hnd⟩
          | link target => exact absurd rfl (hnl target)

theorem walks_walk (links : Nat) (cur : Loc) (cs : List Comp) : Walks fs links cur cs (walk fs links cur cs) := by
  induction links generalizing cur cs with
  | zero => exact walks_go (fun hd hl => .loop hd hl) cur cs
  | succ links ih => exact walks_go (fun hd hl => .follow hd hl (ih _ _)) cur cs

theorem solid_not_link {loc : Loc} (h : Solid fs loc) (target : List Char) : fs.node loc ≠ some (.link target) := by
  intro hl
  rcases h with h | ⟨info, h⟩ <;> rw [h] at hl <;> cases hl

theorem solid_not_none {loc : Loc} (h : Solid fs loc) : fs.node loc ≠ none := by
  intro hl
  rcases h with h | ⟨info, h⟩ <;> rw [h] at hl <;> cases hl

/-- A walk has one outcome. -/
theorem walks_unique {links : Nat} {cur : Loc} {cs : List Comp} {o o' : Outcome} (h : Walks fs links cur cs o)
    (h' : Walks fs links cur cs o') : o = o' := by
  induction h with
  | found links cur => cases h'; rfl
  | notDir hd =>
    cases h' with
    | notDir => rfl
    | here hd' | up hd' | missing hd' | enter hd' | follow hd' | loop hd' =>
      rw [hd] at hd'
      cases hd'
  | here hd _ ih =>
    cases h' with
    | notDir hd' => rw [hd] at hd'; cases hd'
    | here _ h' => exact ih h'
  | up hd _ ih =>
    cases h' with
    | notDir hd' => rw [hd] at hd'; cases hd'
    | up _ h' => exact ih h'
  | missing hd hn =>
    cases h' with
    | notDir hd' => rw [hd] at hd'; cases hd'
    | missing => rfl
    | enter _ hs => exact absurd hn (solid_not_none hs)
    | follow _ hl | loop _ hl => rw [hn] at hl; cases hl
  | enter hd hs _ ih =>
    cases h' with
    | notDir hd' => rw [hd] at hd'; cases hd'
    | missing _ hn => exact absurd hn (solid_not_none hs)
    | enter _ _ h' => exact ih h'
    | follow _ hl | loop _ hl => exact absurd hl (solid_not_link hs _)
  | follow hd hl _ ih =>
    cases h' with
    | notDir hd' => rw [hd] at hd'; cases hd'
    | missing _ hn => rw [hn] at hl; cases hl
    | enter _ hs => exact absurd hl (solid_not_link hs _)
    | follow _ hl' h' =>
      rw [hl] at hl'
      cases hl'
      exact ih h'
  | loop hd hl =>
    cases h' with
    | notDir hd' => rw [hd] at hd'; cases hd'
    | missing _ hn => rw [hn] at hl; cases hl
    | enter _ hs => exact absurd hl (solid_not_link hs _)
    | loop => rfl

/-- **The function decides the relation.** -/
theorem walk_iff {links : Nat} {cur : Loc} {cs : List Comp} {o : Outcome} :
    walk fs links cur cs = o ↔ Walks fs links cur cs o := by
  constructor
  · rintro rfl
    exact walks_walk links cur cs
  · exact fun h => walks_unique (walks_walk links cur cs) h

/-- **A path is walked in two parts.** -/
theorem walks_append {links left : Nat} {cur d : Loc} {cs ds : List Comp} {o : Outcome}
    (h : Walks fs links cur cs (.found d left)) (h' : Walks fs left d ds o) : Walks fs links cur (cs ++ ds) o := by
  generalize hf : Outcome.found d left = found at h
  induction h with
  | found links cur =>
    cases hf
    exact h'
  | notDir | missing | loop => cases hf
  | here hd _ ih => exact .here hd (ih hf)
  | up hd _ ih => exact .up hd (ih hf)
  | enter hd hs _ ih => exact .enter hd hs (ih hf)
  | @follow _ _ _ cs target _ hd hl _ ih =>
    refine .follow hd hl ?_
    show Walks fs _ _ (comps target ++ (cs ++ ds)) o
    rw [← List.append_assoc]
    exact ih hf

/-! ## Where walks end -/

theorem solid_of_dir {loc : Loc} (h : isDir fs loc = true) : Solid fs loc := .inl ((isDir_iff fs loc).1 h)

/-- The directory above a directory. -/
theorem solid_dropLast {cur : Loc} (h : isDir fs cur = true) : Solid fs cur.dropLast := by
  rcases List.eq_nil_or_concat cur with rfl | ⟨p, n, rfl⟩
  · exact .inl fs.root
  · rw [List.concat_eq_append] at h ⊢
    rw [List.dropLast_concat]
    exact .inl (fs.parent p n (solid_not_none (solid_of_dir h)))

theorem solid_origin {cur : Loc} (h : Solid fs cur) (path : List Char) : Solid fs (origin cur path) := by
  unfold origin
  split
  · exact .inl fs.root
  · exact h

/-- **A walk ends at a directory or a file.** -/
theorem walks_solid {links left : Nat} {cur d : Loc} {cs : List Comp} (hs : Solid fs cur)
    (h : Walks fs links cur cs (.found d left)) : Solid fs d := by
  generalize hf : Outcome.found d left = found at h
  induction h with
  | found links cur =>
    cases hf
    exact hs
  | notDir | missing | loop => cases hf
  | here _ _ ih => exact ih hs hf
  | up hd _ ih => exact ih (solid_dropLast hd) hf
  | enter _ hs' _ ih => exact ih hs' hf
  | follow hd _ _ ih => exact ih (solid_origin (solid_of_dir hd) _) hf

/-! ## Canonical names -/

theorem nul_canonical (loc : Loc) : nul ∉ canonical loc := by
  have hpieces : nul ∉ ['/'].intercalate (loc.map (·.1)) := by
    induction loc with
    | nil => exact List.not_mem_nil
    | cons n loc ih =>
      cases loc with
      | nil =>
        show nul ∉ n.1 ++ []
        rw [List.append_nil]
        exact n.2.2.2.2.2
      | cons n' loc =>
        rw [List.map_cons, List.map_cons, List.intercalate_cons_cons]
        intro hm
        rcases List.mem_append.1 hm with hm | hm
        · rcases List.mem_append.1 hm with hm | hm
          · exact n.2.2.2.2.2 hm
          · exact absurd (List.mem_singleton.1 hm) (by decide)
        · exact ih hm
  intro hm
  rcases List.mem_cons.1 hm with hm | hm
  · exact absurd hm (by decide)
  · exact hpieces hm

theorem comp_name (n : Name) : comp n.1 = .name n := dif_pos n.2

/-- The pieces of a canonical name. -/
theorem splitOn_canonical {loc : Loc} (h : loc ≠ []) : (canonical loc).splitOn '/' = [] :: loc.map (·.1) := by
  have hcut := List.splitOn_append_cons_self (a := '/') [] (['/'].intercalate (loc.map (·.1)))
  rw [List.nil_append, List.splitOn_nil, List.splitOn_intercalate] at hcut
  · exact hcut
  · intro n hn
    obtain ⟨n', -, rfl⟩ := List.mem_map.1 hn
    exact n'.2.2.2.2.1
  · exact fun hm => h (List.map_eq_nil_iff.1 hm)

/-- A location is walked to from the root by its names. -/
theorem walks_names (links : Nat) {loc : Loc} (h : Solid fs loc) :
    Walks fs links [] (loc.map .name) (.found loc links) := by
  induction loc using List.reverseRecOn with
  | nil => exact .found links []
  | append_singleton p n ih =>
    have hp : fs.node p = some .dir := fs.parent p n (solid_not_none h)
    rw [List.map_append]
    exact walks_append (ih (.inl hp)) (.enter ((isDir_iff fs p).2 hp) h (.found links (p ++ [n])))

theorem isDir_root : isDir fs [] = true := (isDir_iff fs []).2 fs.root

/-- A path whose pieces are an empty one and the names of a location. -/
theorem walks_pieces (links : Nat) {path : List Char} {loc : Loc} (hs : Solid fs loc)
    (hp : path.splitOn '/' = [] :: loc.map (·.1)) : Walks fs links [] (comps path) (.found loc links) := by
  have hc : comps path = .here :: loc.map .name := by
    rw [comps, hp, List.map_cons, List.map_map]
    exact congrArg (Comp.here :: ·) (List.map_congr_left fun n _ => comp_name n)
  rw [hc]
  exact .here isDir_root (walks_names links hs)

/-- **The canonical name of a location leads there.** -/
theorem walks_canonical (links : Nat) {loc : Loc} (h : Solid fs loc) :
    Walks fs links [] (comps (canonical loc)) (.found loc links) := by
  by_cases hl : loc = []
  · subst hl
    exact .here isDir_root (.here isDir_root (.found links []))
  · exact walks_pieces links h (splitOn_canonical hl)

/-- What stands above a directory or a file is one. -/
theorem solid_above {p loc : Loc} (hp : p <+: loc) (h : Solid fs loc) : Solid fs p := by
  obtain ⟨r, rfl⟩ := hp
  induction r using List.reverseRecOn with
  | nil =>
    rw [List.append_nil] at h
    exact h
  | append_singleton r n ih =>
    rw [← List.append_assoc] at h
    exact ih (.inl (fs.parent (p ++ r) n (solid_not_none h)))

/-- **What a canonical name starts with, up to a separator, leads to a location
above.** -/
theorem walks_canonical_above (links : Nat) {loc : Loc} (h : Solid fs loc) {base : List Char} (hb : base ≠ [])
    (hpre : base ++ ['/'] <+: canonical loc) :
    ∃ p, p <+: loc ∧ base.head? = some '/' ∧ Walks fs links [] (comps base) (.found p links) := by
  obtain ⟨r, hr⟩ := hpre
  have hhead : base.head? = some '/' := by
    cases base with
    | nil => exact absurd rfl hb
    | cons c cs =>
      obtain rfl : c = '/' := (List.cons.inj hr).1
      rfl
  have hcut : base.splitOn '/' ++ r.splitOn '/' = (canonical loc).splitOn '/' := by
    rw [← List.splitOn_append_cons_self, ← hr, List.append_assoc]
    rfl
  have hsingle : base.splitOn '/' ≠ [[]] := by
    intro he
    have hi : ['/'].intercalate (base.splitOn '/') = base := List.intercalate_splitOn '/'
    rw [he] at hi
    exact hb hi.symm
  by_cases hl : loc = []
  · -- the root's name has two empty pieces
    subst hl
    exfalso
    have hroot : (canonical []).splitOn '/' = [[], []] := rfl
    rw [hroot] at hcut
    rcases List.append_eq_cons_iff.1 hcut with ⟨he, -⟩ | ⟨as, he, has⟩
    · exact List.splitOn_ne_nil _ _ he
    · rcases List.append_eq_cons_iff.1 has.symm with ⟨hn, -⟩ | ⟨as', -, has'⟩
      · rw [hn] at he
        exact hsingle he
      · exact List.splitOn_ne_nil _ _ (List.append_eq_nil_iff.1 has'.symm).2
  · rw [splitOn_canonical hl] at hcut
    rcases List.append_eq_cons_iff.1 hcut with ⟨he, -⟩ | ⟨as, he, has⟩
    · exact absurd he (List.splitOn_ne_nil _ _)
    · obtain ⟨p, q, rfl, rfl, -⟩ := List.append_eq_map_iff.1 has.symm
      exact ⟨p, List.prefix_append p q, hhead, walks_pieces links (solid_above (List.prefix_append p q) h) he⟩

end

end NekoEcat.PathWalk
