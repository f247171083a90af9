/-
A tree of directories and files without links. Paths are resolved one component at a time, `..`
included, and the calls that write, read, list and remove files answer as a file system does whose calls
only fail when what they need is not there. None of these calls makes or removes a directory.
-/
import Mathlib.Data.List.AList
import Mathlib.Tactic

namespace FileTree

variable {N β : Type}

/-! ## Paths -/

inductive Comp (N : Type) where
  | parent
  | name (n : N)
  deriving DecidableEq

/-- A path by its components; `.` and empty ones are left out. -/
structure Path (N : Type) where
  absolute : Bool
  comps : List (Comp N)
  deriving DecidableEq

namespace Path

/-- The empty path. -/
def empty : Path N := ⟨false, []⟩

def join (p q : Path N) : Path N := if q.absolute then q else ⟨p.absolute, p.comps ++ q.comps⟩

def push (p : Path N) (n : N) : Path N := ⟨p.absolute, p.comps ++ [.name n]⟩

/-- The last component, if it is a name. -/
def fileName (p : Path N) : Option N :=
  match p.comps.getLast? with
  | some (.name n) => some n
  | _ => none

/-- The path without its file name, if it has one. -/
def dir (p : Path N) : Path N := if p.fileName.isSome then ⟨p.absolute, p.comps.dropLast⟩ else p

def withFileName (p : Path N) (n : N) : Path N := p.dir.push n

@[simp] theorem fileName_push (p : Path N) (n : N) : (p.push n).fileName = some n := by
  simp [fileName, push]

@[simp] theorem dir_push (p : Path N) (n : N) : (p.push n).dir = p := by
  unfold dir
  simp [push, fileName]

/-- A path with a file name is its directory and that name. -/
theorem push_dir {p : Path N} {n : N} (h : p.fileName = some n) : p.dir.push n = p := by
  have hlast : p.comps.getLast? = some (.name n) := by
    unfold fileName at h
    split at h
    · rename_i m hm; cases h; exact hm
    · cases h
  unfold dir push
  rw [h]
  simp only [Option.isSome_some, if_true]
  rw [List.dropLast_append_getLast? _ hlast]

end Path

/-! ## Trees -/

inductive Node (β : Type) where
  | dir
  | file (content : β)
  deriving DecidableEq

/-- Where a node is: the names on the way from the root. -/
abbrev Loc (N : Type) : Type := List N

theorem Loc.push_ne {l : Loc N} {m n : N} (h : m ≠ n) : l ++ [m] ≠ l ++ [n] := by
  simpa using h

/-- The nodes below the root, which is a directory, and where relative paths start. -/
structure Tree (N β : Type) where
  nodes : AList (fun _ : Loc N => Node β)
  cwd : Loc N

/-- Why a call fails: nothing is there, or a node of the wrong kind. -/
inductive Fault where
  | missing
  | wrongKind
  deriving DecidableEq

namespace Tree

variable [DecidableEq N]

def node? (t : Tree N β) (l : Loc N) : Option (Node β) := if l = [] then some .dir else t.nodes.lookup l

/-- One component further, from a directory. -/
def enter (t : Tree N β) (l : Loc N) : Comp N → Except Fault (Loc N)
  | .parent => .ok l.dropLast
  | .name n =>
    match t.node? (l ++ [n]) with
    | some .dir => .ok (l ++ [n])
    | some (.file _) => .error .wrongKind
    | none => .error .missing

/-- The directory a path leads to. -/
def walk (t : Tree N β) (p : Path N) : Except Fault (Loc N) :=
  p.comps.foldlM t.enter (if p.absolute then [] else t.cwd)

/-- The place a path names in a directory that exists. -/
def place (t : Tree N β) (p : Path N) : Except Fault (Loc N) :=
  match p.fileName with
  | some n => (t.walk p.dir).map (· ++ [n])
  | none => t.walk p

/-! ## Calls -/

/-- What is read from a node. -/
def content : Option (Node β) → Except Fault β
  | some (.file b) => .ok b
  | some .dir => .error .wrongKind
  | none => .error .missing

/-- Opens a file and reads it to its end. -/
def read (t : Tree N β) (p : Path N) : Except Fault β :=
  match t.place p with
  | .error f => .error f
  | .ok l => content (t.node? l)

def «exists» (t : Tree N β) (p : Path N) : Bool :=
  match t.place p with
  | .error _ => false
  | .ok l => (t.node? l).isSome

def isFile (t : Tree N β) (p : Path N) : Bool :=
  match t.read p with
  | .error _ => false
  | .ok _ => true

/-- Makes a file or empties the one there, and writes it. -/
def create (t : Tree N β) (p : Path N) (b : β) : Except Fault (Tree N β) :=
  match t.place p with
  | .error f => .error f
  | .ok l =>
    match t.node? l with
    | some .dir => .error .wrongKind
    | _ => .ok { t with nodes := t.nodes.insert l (.file b) }

def removeFile (t : Tree N β) (p : Path N) : Except Fault (Tree N β) :=
  match t.place p with
  | .error f => .error f
  | .ok l =>
    match t.node? l with
    | some (.file _) => .ok { t with nodes := t.nodes.erase l }
    | some .dir => .error .wrongKind
    | none => .error .missing

/-- The name of a node that lies in the directory `l`. -/
def childName (l m : Loc N) : Option N := if m.dropLast = l then m.getLast? else none

/-- The names in the directory `l`. -/
def children (t : Tree N β) (l : Loc N) : List N := t.nodes.keys.filterMap (childName l)

/-- The names in a directory. The empty path leads nowhere here. -/
def readDir (t : Tree N β) (p : Path N) : Except Fault (List N) :=
  if p = .empty then .error .missing else (t.walk p).map t.children

/-! ## Nodes after a call -/

/-- A file is put at `l`. -/
def setFile (t : Tree N β) (l : Loc N) (b : β) : Tree N β := { t with nodes := t.nodes.insert l (.file b) }

/-- What is at `l` is taken away. -/
def eraseNode (t : Tree N β) (l : Loc N) : Tree N β := { t with nodes := t.nodes.erase l }

variable {t t' : Tree N β}

theorem node?_push (t : Tree N β) (l : Loc N) (n : N) : t.node? (l ++ [n]) = t.nodes.lookup (l ++ [n]) := by
  simp [node?]

theorem node?_setFile (t : Tree N β) (l m : Loc N) (n : N) (b : β) :
    (t.setFile (l ++ [n]) b).node? m = if m = l ++ [n] then some (.file b) else t.node? m := by
  by_cases hm : m = l ++ [n]
  · subst hm
    simp [node?, setFile]
  · by_cases h0 : m = []
    · simp [node?, h0]
    · simp [node?, setFile, h0, hm]

theorem node?_eraseNode (t : Tree N β) (l m : Loc N) (n : N) :
    (t.eraseNode (l ++ [n])).node? m = if m = l ++ [n] then none else t.node? m := by
  by_cases hm : m = l ++ [n]
  · subst hm
    simp [node?, eraseNode]
  · by_cases h0 : m = []
    · simp [node?, h0]
    · simp [node?, eraseNode, h0, hm]

theorem mem_children {l : Loc N} {n : N} : n ∈ t.children l ↔ (t.node? (l ++ [n])).isSome := by
  unfold children
  rw [List.mem_filterMap, node?_push, AList.lookup_isSome]
  constructor
  · rintro ⟨m, hm, hn⟩
    unfold childName at hn
    split at hn
    · rename_i hl
      rw [← hl, List.dropLast_append_getLast? _ hn]
      exact hm
    · cases hn
  · intro h
    exact ⟨l ++ [n], h, by simp [childName]⟩

/-! ## Files of a directory -/

/-- What is under a name in the directory a path leads to. -/
def under (t : Tree N β) (p : Path N) (n : N) : Except Fault (Option (Node β)) :=
  (t.walk p).map fun l => t.node? (l ++ [n])

theorem place_push (t : Tree N β) (p : Path N) (n : N) : t.place (p.push n) = (t.walk p).map (· ++ [n]) := by
  simp [place]

theorem read_push (t : Tree N β) (p : Path N) (n : N) : t.read (p.push n) = (t.under p n).bind content := by
  unfold read under
  rw [place_push]
  cases t.walk p <;> rfl

theorem exists_push (t : Tree N β) (p : Path N) (n : N) :
    t.exists (p.push n) = ((t.under p n).toOption.bind id).isSome := by
  unfold Tree.exists under
  rw [place_push]
  cases t.walk p <;> rfl

theorem under_ok {p : Path N} {n : N} {o : Option (Node β)} (h : t.under p n = .ok o) :
    ∃ l, t.walk p = .ok l ∧ t.node? (l ++ [n]) = o := by
  unfold under at h
  cases hw : t.walk p with
  | error f => rw [hw] at h; cases h
  | ok l =>
    rw [hw] at h
    cases h
    exact ⟨l, rfl, rfl⟩

theorem under_error {p : Path N} {n : N} {f : Fault} : t.under p n = .error f ↔ t.walk p = .error f := by
  unfold under
  cases t.walk p <;> simp [Except.map]

theorem under_walk {p : Path N} {l : Loc N} (h : t.walk p = .ok l) (n : N) :
    t.under p n = .ok (t.node? (l ++ [n])) := by
  unfold under
  rw [h]; rfl

/-- A file that can be read is there. -/
theorem read_ok {p : Path N} {n : N} {b : β} (h : t.read (p.push n) = .ok b) :
    ∃ l, t.walk p = .ok l ∧ t.node? (l ++ [n]) = some (.file b) := by
  rw [read_push] at h
  rcases hu : t.under p n with f | _ | _ | b'
  · rw [hu] at h; cases h
  · rw [hu] at h; cases h
  · rw [hu] at h; cases h
  · rw [hu] at h
    cases h
    exact under_ok hu

/-- What a directory lists is what is in the place its path leads to. -/
theorem readDir_ok {p : Path N} {es : List N} (h : t.readDir p = .ok es) :
    ∃ l, t.walk p = .ok l ∧ es = t.children l := by
  unfold readDir at h
  split at h
  · cases h
  · cases hw : t.walk p with
    | error f =>
      rw [hw] at h
      cases h
    | ok l =>
      rw [hw] at h
      cases h
      exact ⟨l, rfl, rfl⟩

theorem create_error {p : Path N} {n : N} {f : Fault} (h : t.under p n = .error f) (b : β) :
    t.create (p.push n) b = .error f := by
  unfold create
  rw [place_push, under_error.1 h]
  rfl

theorem removeFile_error {p : Path N} {n : N} {f : Fault} (h : t.under p n = .error f) :
    t.removeFile (p.push n) = .error f := by
  unfold removeFile
  rw [place_push, under_error.1 h]
  rfl

theorem create_dir {p : Path N} {n : N} (h : t.under p n = .ok (some .dir)) (b : β) :
    t.create (p.push n) b = .error .wrongKind := by
  obtain ⟨l, hw, hn⟩ := under_ok h
  unfold create
  rw [place_push, hw]
  simp only [Except.map, hn]

theorem create_ok {p : Path N} {l : Loc N} {n : N} (h : t.walk p = .ok l) (hn : t.node? (l ++ [n]) ≠ some .dir)
    (b : β) :
    t.create (p.push n) b = .ok (t.setFile (l ++ [n]) b) := by
  unfold create
  rw [place_push, h]
  simp only [Except.map]
  rfl

theorem removeFile_ok {p : Path N} {l : Loc N} {n : N} {b : β} (h : t.walk p = .ok l)
    (hn : t.node? (l ++ [n]) = some (.file b)) : t.removeFile (p.push n) = .ok (t.eraseNode (l ++ [n])) := by
  unfold removeFile
  rw [place_push, h]
  simp only [Except.map, hn]
  rfl

/-- Only a file is removed. -/
theorem removeFile_other {p : Path N} {n : N} {o : Option (Node β)} (h : t.under p n = .ok o)
    (ho : ∀ b, o ≠ some (.file b)) :
    ∃ f, t.removeFile (p.push n) = .error f := by
  obtain ⟨l, hw, rfl⟩ := under_ok h
  unfold removeFile
  rw [place_push, hw]
  simp only [Except.map]
  split
  · rename_i b hb; exact absurd hb (ho b)
  · exact ⟨_, rfl⟩
  · exact ⟨_, rfl⟩

/-! ## Directories stay -/

/-- The two trees have the same directories. -/
structure SameDirs (t t' : Tree N β) : Prop where
  cwd : t'.cwd = t.cwd
  dir : ∀ l, t'.node? l = some .dir ↔ t.node? l = some .dir

theorem SameDirs.refl (t : Tree N β) : SameDirs t t := ⟨rfl, fun _ => Iff.rfl⟩

theorem SameDirs.symm (h : SameDirs t t') : SameDirs t' t := ⟨h.cwd.symm, fun l => (h.dir l).symm⟩

theorem SameDirs.trans {t'' : Tree N β} (h : SameDirs t t') (h' : SameDirs t' t'') : SameDirs t t'' :=
  ⟨h'.cwd.trans h.cwd, fun l => (h'.dir l).trans (h.dir l)⟩

theorem enter_ok {l l' : Loc N} {c : Comp N} (hd : SameDirs t t') (h : t.enter l c = .ok l') :
    t'.enter l c = .ok l' := by
  cases c with
  | parent => exact h
  | name n =>
    simp only [enter] at h ⊢
    split at h
    · rename_i hn
      simp only [(hd.dir _).2 hn]
      exact h
    · cases h
    · cases h

/-- A path leads to the same directory in a tree with the same directories. -/
theorem walk_ok {p : Path N} {l : Loc N} (hd : SameDirs t t') (h : t.walk p = .ok l) : t'.walk p = .ok l := by
  unfold walk at h ⊢
  rw [hd.cwd]
  revert h
  generalize (if p.absolute = true then [] else t.cwd) = start
  induction p.comps generalizing start with
  | nil => exact id
  | cons c cs ih =>
    intro h
    rw [List.foldlM_cons] at h ⊢
    cases hc : t.enter start c with
    | error f => rw [hc] at h; cases h
    | ok l' =>
      rw [hc] at h
      rw [enter_ok hd hc]
      exact ih l' h

/-- Putting a file where there is no directory leaves the directories. -/
theorem setFile_sameDirs {l : Loc N} {n : N} (h : t.node? (l ++ [n]) ≠ some .dir) (b : β) :
    SameDirs t (t.setFile (l ++ [n]) b) := by
  refine ⟨rfl, fun m => ?_⟩
  rw [node?_setFile]
  split
  · rename_i hm
    rw [hm]
    simp only [h, iff_false]
    nofun
  · exact Iff.rfl

theorem eraseNode_sameDirs {l : Loc N} {n : N} (h : t.node? (l ++ [n]) ≠ some .dir) :
    SameDirs t (t.eraseNode (l ++ [n])) := by
  refine ⟨rfl, fun m => ?_⟩
  rw [node?_eraseNode]
  split
  · rename_i hm
    rw [hm]
    simp only [h, iff_false]
    nofun
  · exact Iff.rfl


/-- A path leads where it led after a file was put in its directory. -/
theorem walk_setFile {p : Path N} {l : Loc N} {n : N} (h : t.walk p = .ok l) (hn : t.node? (l ++ [n]) ≠ some .dir)
    (b : β) :
    (t.setFile (l ++ [n]) b).walk p = .ok l := walk_ok (setFile_sameDirs hn b) h

theorem walk_eraseNode {p : Path N} {l : Loc N} {n : N} (h : t.walk p = .ok l) (hn : t.node? (l ++ [n]) ≠ some .dir) :
    (t.eraseNode (l ++ [n])).walk p = .ok l := walk_ok (eraseNode_sameDirs hn) h

/-- A file that is put changes what is under its own name only. -/
theorem under_setFile {p : Path N} {l : Loc N} {n : N} (h : t.walk p = .ok l) (hn : t.node? (l ++ [n]) ≠ some .dir)
    (b : β) :
    (t.setFile (l ++ [n]) b).under p n = .ok (some (.file b)) ∧
      ∀ m, m ≠ n → (t.setFile (l ++ [n]) b).under p m = t.under p m := by
  have hw := walk_setFile h hn b
  constructor
  · rw [under_walk hw, node?_setFile, if_pos rfl]
  · intro m hm
    rw [under_walk hw, under_walk h, node?_setFile, if_neg (Loc.push_ne hm)]

theorem under_eraseNode {p : Path N} {l : Loc N} {n : N} (h : t.walk p = .ok l) (hn : t.node? (l ++ [n]) ≠ some .dir) :
    (t.eraseNode (l ++ [n])).under p n = .ok none ∧
      ∀ m, m ≠ n → (t.eraseNode (l ++ [n])).under p m = t.under p m := by
  have hw := walk_eraseNode h hn
  constructor
  · rw [under_walk hw, node?_eraseNode, if_pos rfl]
  · intro m hm
    rw [under_walk hw, under_walk h, node?_eraseNode, if_neg (Loc.push_ne hm)]

/-! ## Listings -/

theorem childName_push (l m : Loc N) (n : N) : childName l (m ++ [n]) = if m = l then some n else none := by
  simp [childName]

theorem childName_eq_some {l m : Loc N} {n : N} : childName l m = some n ↔ m = l ++ [n] := by
  constructor
  · intro h
    unfold childName at h
    split at h
    · rename_i hl
      rw [← hl, List.dropLast_append_getLast? _ h]
    · cases h
  · rintro rfl
    rw [childName_push, if_pos rfl]

section
variable {α γ : Type} [DecidableEq α] {f : α → Option γ} {a : α}

/-- Erasing what a partial map leaves out does not change the map's image. -/
theorem filterMap_erase_none (h : f a = none) : ∀ ks : List α, (ks.erase a).filterMap f = ks.filterMap f
  | [] => rfl
  | k :: ks => by
    by_cases hk : k = a
    · subst hk
      rw [List.erase_cons_head, List.filterMap_cons, h]
    · rw [List.erase_cons_tail (by simpa using hk), List.filterMap_cons, List.filterMap_cons, filterMap_erase_none h ks]

/-- Erasing the only origin of a value erases the value. -/
theorem filterMap_erase_some [DecidableEq γ] {c : γ} (h : ∀ k, f k = some c ↔ k = a) :
    ∀ ks : List α, (ks.erase a).filterMap f = (ks.filterMap f).erase c
  | [] => rfl
  | k :: ks => by
    by_cases hk : k = a
    · subst hk
      rw [List.erase_cons_head, List.filterMap_cons, (h k).2 rfl, List.erase_cons_head]
    · rw [List.erase_cons_tail (by simpa using hk), List.filterMap_cons, List.filterMap_cons, filterMap_erase_some h ks]
      cases hc : f k with
      | none => rfl
      | some c' =>
        have hne : c' ≠ c := by
          rintro rfl
          exact hk ((h k).1 hc)
        simp [hne]

end

/-- A file put or taken away in another directory leaves a listing. -/
theorem children_setFile {l m : Loc N} (h : m ≠ l) (n : N) (b : β) :
    (t.setFile (m ++ [n]) b).children l = t.children l := by
  have hnone : childName l (m ++ [n]) = none := by rw [childName_push, if_neg h]
  unfold children setFile
  rw [AList.keys_insert, List.filterMap_cons, hnone]
  exact filterMap_erase_none hnone _

theorem children_eraseNode {l m : Loc N} (h : m ≠ l) (n : N) : (t.eraseNode (m ++ [n])).children l = t.children l := by
  have hnone : childName l (m ++ [n]) = none := by rw [childName_push, if_neg h]
  unfold children eraseNode
  rw [AList.keys_erase]
  exact filterMap_erase_none hnone _

theorem children_eraseNode_self (t : Tree N β) (l : Loc N) (n : N) :
    (t.eraseNode (l ++ [n])).children l = (t.children l).erase n := by
  unfold children eraseNode
  rw [AList.keys_erase]
  exact filterMap_erase_some (fun m => childName_eq_some) _

/-- A path one name longer leads to the directory of that name. -/
theorem walk_push (t : Tree N β) (p : Path N) (n : N) :
    t.walk (p.push n) = (t.walk p).bind fun l => t.enter l (.name n) := by
  unfold walk Path.push
  simp only [List.foldlM_append, List.foldlM_cons, List.foldlM_nil, bind_pure]
  rfl

theorem walk_push_ok {p : Path N} {n : N} {m : Loc N} (h : t.walk (p.push n) = .ok m) :
    ∃ l, t.walk p = .ok l ∧ m = l ++ [n] := by
  rw [walk_push] at h
  cases hw : t.walk p with
  | error f => rw [hw] at h; cases h
  | ok l =>
    rw [hw] at h
    simp only [Except.bind, enter] at h
    split at h
    · exact ⟨l, rfl, (Except.ok.inj h).symm⟩
    · cases h
    · cases h

/-- A path with a file name leads to a directory. -/
theorem walk_dir {p : Path N} {l : Loc N} {n : N} (h : t.walk (p.push n) = .ok (l ++ [n])) :
    t.node? (l ++ [n]) = some .dir := by
  rw [walk_push] at h
  cases hw : t.walk p with
  | error f => rw [hw] at h; cases h
  | ok m =>
    rw [hw] at h
    simp only [Except.bind, enter] at h
    split at h
    · rename_i hn
      rw [← Except.ok.inj h]
      exact hn
    · cases h
    · cases h

end Tree

end FileTree
