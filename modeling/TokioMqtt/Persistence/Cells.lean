/-
What a store is to one key: a cell with the packet in memory and what is on disk under the key. A call
on a key acts on the cell of that key and on no other.
-/
import TokioMqtt.Persistence.Fs

namespace TokioMqtt.Fs

open Proto FileTree

/-! ## One key -/

/-- What is on disk under a key, if its directory is there. -/
abbrev Disk : Type := Except Fault (Option (Node Bytes))

structure Cell where
  memory : Option Bytes
  disk : Disk

namespace Cell

def put (packet : Bytes) (c : Cell) : Result × Cell :=
  match c.memory, c.disk with
  | some _, _ => (.error .alreadyExists, c)
  | none, .error f => (.error (faultKind f), { c with memory := some packet })
  | none, .ok (some .dir) => (.error .other, { c with memory := some packet })
  | none, .ok _ => (.ok .done, ⟨some packet, .ok (some (.file packet))⟩)

def contains (c : Cell) : Result × Cell :=
  match c.memory, c.disk with
  | some _, _ => (.ok (.found (some ())), c)
  | none, .ok (some (.file b)) => (.ok (.found (some ())), { c with memory := some b })
  | none, .ok (some .dir) => (.error .other, c)
  | none, _ => (.ok (.found none), c)

def get (c : Cell) : Result × Cell :=
  match c.memory, c.disk with
  | some b, _ => (.ok (.packet b), c)
  | none, .ok (some (.file b)) => (.ok (.packet b), { c with memory := some b })
  | none, .ok (some .dir) => (.error .other, c)
  | none, .ok none => (.error .notFound, c)
  | none, .error f => (.error (faultKind f), c)

def remove (c : Cell) : Result × Cell :=
  match c.memory, c.disk with
  | none, _ => (.error .alreadyExists, c)
  | some _, .ok (some (.file _)) => (.ok .done, ⟨none, .ok none⟩)
  | some _, _ => (.error .other, { c with memory := none })

/-- The cell without what is in memory. -/
def cold (c : Cell) : Cell := { c with memory := none }

/-- There is a file under the key. -/
def stored (c : Cell) : Bool :=
  match c.disk with
  | .ok (some (.file _)) => true
  | _ => false

end Cell

/-- A call on the cell of its key. -/
def KeyCall.onCell : KeyCall → Cell → Result × Cell
  | .put _ packet => Cell.put packet
  | .contains _ => Cell.contains
  | .get _ => Cell.get
  | .remove _ => Cell.remove

namespace Store

/-- The directory of the packets: the store's path without its file name. -/
def packetDir (s : Store) : Path FileName := s.self.currentStore.dir

def memory (s : Store) (key : FileName) : Option Bytes := s.self.cache.lookup key

def disk (s : Store) (key : FileName) : Disk := s.fs.under s.packetDir key

def cell (s : Store) (key : FileName) : Cell := ⟨s.memory key, s.disk key⟩

/-! ## The cells of a changed store -/

theorem pathOf_eq (s : Store) (key : FileName) : s.pathOf key = s.packetDir.push key := rfl

@[simp] theorem memory_cached (s : Store) (key k : FileName) (b : Bytes) :
    (s.cached key b).memory k = if k = key then some b else s.memory k := by
  unfold memory cached
  split
  · rename_i h; rw [h]; exact AList.lookup_insert _
  · rename_i h; exact AList.lookup_insert_ne h

@[simp] theorem memory_uncached (s : Store) (key k : FileName) :
    (s.uncached key).memory k = if k = key then none else s.memory k := by
  unfold memory uncached
  split
  · rename_i h; rw [h]; exact AList.lookup_erase _ _
  · rename_i h; exact AList.lookup_erase_ne h

@[simp] theorem memory_fs (s : Store) (fs : Tree FileName Bytes) (k : FileName) :
    ({ s with fs } : Store).memory k = s.memory k := rfl

@[simp] theorem disk_cached (s : Store) (key k : FileName) (b : Bytes) : (s.cached key b).disk k = s.disk k := rfl

@[simp] theorem disk_uncached (s : Store) (key k : FileName) : (s.uncached key).disk k = s.disk k := rfl

theorem read_disk (s : Store) (key : FileName) : s.fs.read (s.pathOf key) = (s.disk key).bind Tree.content :=
  Tree.read_push ..

theorem exists_disk (s : Store) (key : FileName) :
    s.fs.exists (s.pathOf key) = ((s.disk key).toOption.bind id).isSome := Tree.exists_push ..

end Store

/-! ## What a call changes and what it looks at -/

/-- A call that writes to the disk, given what is in memory under its key. -/
def KeyCall.writes : KeyCall → Option Bytes → Bool
  | .put _ _, none => true
  | .remove _, some _ => true
  | _, _ => false

/-- A call whose answer depends on the file of its key, given what is in memory under the key. -/
def KeyCall.reads : KeyCall → Option Bytes → Bool
  | .contains _, none => true
  | .get _, none => true
  | .remove _, some _ => true
  | _, _ => false

/-- The trees a call on a key may leave: the key's file is written, or taken away, or nothing happens. -/
inductive Touched (t : Tree FileName Bytes) (dir : Path FileName) (key : FileName) : Tree FileName Bytes → Prop
  | same : Touched t dir key t
  | written {l : Loc FileName} {b : Bytes} (hw : t.walk dir = .ok l) (hn : t.node? (l ++ [key]) ≠ some .dir) :
    Touched t dir key (t.setFile (l ++ [key]) b)
  | erased {l : Loc FileName} (hw : t.walk dir = .ok l) (hn : t.node? (l ++ [key]) ≠ some .dir) :
    Touched t dir key (t.eraseNode (l ++ [key]))

theorem Touched.sameDirs {t u : Tree FileName Bytes} {dir : Path FileName} {key : FileName} (h : Touched t dir key u) :
    Tree.SameDirs t u := by
  cases h with
  | same => exact .refl t
  | written hw hn => exact Tree.setFile_sameDirs hn _
  | erased hw hn => exact Tree.eraseNode_sameDirs hn

/-- The memory with `m` under the key. -/
def remember (cache : AList (fun _ : FileName => Bytes)) (key : FileName) (m : Option Bytes) :
    AList (fun _ : FileName => Bytes) :=
  if cache.lookup key = m then cache
  else
    match m with
    | some b => cache.insert key b
    | none => cache.erase key

/-! ## The calls refine the cells -/

/-- What a call leaves: it answers as on its key's cell, and changes that cell as there and no other. -/
structure Refines (c : KeyCall) (s : Store) (r : Result × Store) : Prop where
  answer : r.1 = (c.onCell (s.cell c.key)).1
  store : r.2.self.rootDir = s.self.rootDir ∧ r.2.self.currentStore = s.self.currentStore
  own : r.2.cell c.key = (c.onCell (s.cell c.key)).2
  others : ∀ k, k ≠ c.key → r.2.cell k = s.cell k
  cache : r.2.self.cache = remember s.self.cache c.key (c.onCell (s.cell c.key)).2.memory
  tree : Touched s.fs s.packetDir c.key r.2.fs
  idle : c.writes (s.memory c.key) = false → r.2.fs = s.fs

open Store

section
variable {c : KeyCall} {s : Store} {a : Result}

theorem refines_kept (h : c.onCell (s.cell c.key) = (a, s.cell c.key)) : Refines c s (a, s) := by
  constructor
  · rw [h]
  · exact ⟨rfl, rfl⟩
  · rw [h]
  · intro k _; rfl
  · rw [h]; exact (if_pos rfl).symm
  · exact .same
  · intro _; rfl

theorem refines_cached {b : Bytes} (hm : s.memory c.key = none)
    (h : c.onCell (s.cell c.key) = (a, ⟨some b, s.disk c.key⟩)) : Refines c s (a, s.cached c.key b) := by
  have hnone : s.self.cache.lookup c.key = none := hm
  constructor
  · rw [h]
  · exact ⟨rfl, rfl⟩
  · rw [h]; simp [cell]
  · intro k hk; simp [cell, hk]
  · rw [h]; simp [remember, hnone, cached]
  · exact .same
  · intro _; rfl

theorem refines_uncached {b : Bytes} (hm : s.memory c.key = some b)
    (h : c.onCell (s.cell c.key) = (a, ⟨none, s.disk c.key⟩)) : Refines c s (a, s.uncached c.key) := by
  have hsome : s.self.cache.lookup c.key = some b := hm
  constructor
  · rw [h]
  · exact ⟨rfl, rfl⟩
  · rw [h]; simp [cell]
  · intro k hk; simp [cell, hk]
  · rw [h]; simp [remember, hsome, uncached]
  · exact .same
  · intro _; rfl

variable {l : Loc FileName} (hw : s.fs.walk s.packetDir = .ok l) (hn : s.fs.node? (l ++ [c.key]) ≠ some .dir)
include hw hn

theorem refines_written {b : Bytes} (hm : s.memory c.key = none) (hwr : c.writes none = true)
    (h : c.onCell (s.cell c.key) = (a, ⟨some b, .ok (some (.file b))⟩)) :
    Refines c s (a, { s.cached c.key b with fs := s.fs.setFile (l ++ [c.key]) b }) := by
  obtain ⟨hown, hothers⟩ := Tree.under_setFile hw hn b
  have hnone : s.self.cache.lookup c.key = none := hm
  constructor
  · rw [h]
  · exact ⟨rfl, rfl⟩
  · rw [h]
    simp only [cell, memory_fs, memory_cached, if_true]
    exact congrArg _ hown
  · intro k hk
    simp only [cell, memory_fs, memory_cached, if_neg hk]
    exact congrArg _ (hothers k hk)
  · rw [h]; simp [remember, hnone, cached]
  · exact .written hw hn
  · intro hidle
    rw [hm, hwr] at hidle
    cases hidle

theorem refines_erased {b : Bytes} (hm : s.memory c.key = some b) (hwr : c.writes (some b) = true)
    (h : c.onCell (s.cell c.key) = (a, ⟨none, .ok none⟩)) :
    Refines c s (a, { s.uncached c.key with fs := s.fs.eraseNode (l ++ [c.key]) }) := by
  obtain ⟨hown, hothers⟩ := Tree.under_eraseNode hw hn
  have hsome : s.self.cache.lookup c.key = some b := hm
  constructor
  · rw [h]
  · exact ⟨rfl, rfl⟩
  · rw [h]
    simp only [cell, memory_fs, memory_uncached, if_true]
    exact congrArg _ hown
  · intro k hk
    simp only [cell, memory_fs, memory_uncached, if_neg hk]
    exact congrArg _ (hothers k hk)
  · rw [h]; simp [remember, hsome, uncached]
  · exact .erased hw hn
  · intro hidle
    rw [hm, hwr] at hidle
    cases hidle

end

theorem cell_eq {s : Store} {key : FileName} {m : Option Bytes} {d : Disk} (hm : s.memory key = m)
    (hd : s.disk key = d) :
    s.cell key = ⟨m, d⟩ := by
  rw [cell, hm, hd]

theorem put_refines (key : FileName) (packet : Bytes) (s : Store) :
    Refines (.put key packet) s ((KeyCall.put key packet).run s) := by
  have hm : s.self.cache.lookup key = s.memory key := rfl
  simp only [KeyCall.run, Store.put, hm, pathOf_eq]
  cases hc : s.memory key with
  | some b => exact refines_kept (by rw [KeyCall.key, cell_eq hc rfl]; rfl)
  | none =>
    -- the file can be made unless its directory is missing or a directory has its name
    rcases hd : s.disk key with f | o
    · rw [Tree.create_error hd]
      exact refines_cached (c := .put key packet) hc (by rw [KeyCall.key, cell_eq hc hd, hd]; rfl)
    · obtain ⟨l, hw, hn⟩ := Tree.under_ok hd
      by_cases ho : o = some .dir
      · subst ho
        rw [Tree.create_dir hd]
        exact refines_cached (c := .put key packet) hc (by rw [KeyCall.key, cell_eq hc hd, hd]; rfl)
      · have hn' : s.fs.node? (l ++ [key]) ≠ some .dir := by rw [hn]; exact ho
        rw [Tree.create_ok hw hn']
        refine refines_written (c := .put key packet) hw hn' hc rfl ?_
        rw [KeyCall.key, cell_eq hc hd]
        rcases o with _ | _ | b
        · rfl
        · exact absurd rfl ho
        · rfl

theorem contains_refines (key : FileName) (s : Store) : Refines (.contains key) s ((KeyCall.contains key).run s) := by
  have hm : s.self.cache.lookup key = s.memory key := rfl
  simp only [KeyCall.run, Store.contains, hm, exists_disk, read_disk]
  cases hc : s.memory key with
  | some b => exact refines_kept (by rw [KeyCall.key, cell_eq hc rfl]; rfl)
  | none =>
    rcases hd : s.disk key with f | _ | _ | b
    · exact refines_kept (by rw [KeyCall.key, cell_eq hc hd]; rfl)
    · exact refines_kept (by rw [KeyCall.key, cell_eq hc hd]; rfl)
    · exact refines_kept (by rw [KeyCall.key, cell_eq hc hd]; rfl)
    · exact refines_cached (c := .contains key) hc (by rw [KeyCall.key, cell_eq hc hd, hd]; rfl)

theorem get_refines (key : FileName) (s : Store) : Refines (.get key) s ((KeyCall.get key).run s) := by
  have hm : s.self.cache.lookup key = s.memory key := rfl
  simp only [KeyCall.run, Store.get, hm, read_disk]
  cases hc : s.memory key with
  | some b => exact refines_kept (by rw [KeyCall.key, cell_eq hc rfl]; rfl)
  | none =>
    rcases hd : s.disk key with f | _ | _ | b
    · exact refines_kept (by rw [KeyCall.key, cell_eq hc hd]; rfl)
    · exact refines_kept (by rw [KeyCall.key, cell_eq hc hd]; rfl)
    · exact refines_kept (by rw [KeyCall.key, cell_eq hc hd]; rfl)
    · exact refines_cached (c := .get key) hc (by rw [KeyCall.key, cell_eq hc hd, hd]; rfl)

theorem remove_refines (key : FileName) (s : Store) : Refines (.remove key) s ((KeyCall.remove key).run s) := by
  have hm : s.self.cache.lookup key = s.memory key := rfl
  simp only [KeyCall.run, Store.remove, hm, pathOf_eq]
  cases hc : s.memory key with
  | none => exact refines_kept (by rw [KeyCall.key, cell_eq hc rfl]; rfl)
  | some packet =>
    -- only a file is removed; what is in memory goes in any case
    rcases hd : s.disk key with f | _ | _ | b
    · rw [Tree.removeFile_error hd]
      exact refines_uncached (c := .remove key) hc (by rw [KeyCall.key, cell_eq hc hd, hd]; rfl)
    · obtain ⟨f, hf⟩ := Tree.removeFile_other hd nofun
      rw [hf]
      exact refines_uncached (c := .remove key) hc (by rw [KeyCall.key, cell_eq hc hd, hd]; rfl)
    · obtain ⟨f, hf⟩ := Tree.removeFile_other hd nofun
      rw [hf]
      exact refines_uncached (c := .remove key) hc (by rw [KeyCall.key, cell_eq hc hd, hd]; rfl)
    · obtain ⟨l, hw, hn⟩ := Tree.under_ok hd
      rw [Tree.removeFile_ok hw hn]
      exact refines_erased (c := .remove key) hw (by rw [KeyCall.key, hn]; nofun) hc rfl
        (by rw [KeyCall.key, cell_eq hc hd]; rfl)

/-- A call on a key does on the store what it does on the key's cell. -/
theorem run_refines (c : KeyCall) (s : Store) : Refines c s (c.run s) := by
  cases c with
  | put key packet => exact put_refines key packet s
  | contains key => exact contains_refines key s
  | get key => exact get_refines key s
  | remove key => exact remove_refines key s

/-! ## Listing and clearing -/

/-- `keys` fills the memory and leaves the rest. -/
theorem loadAll_frame : ∀ (es : List FileName) (s : Store), (loadAll es s).2.fs = s.fs ∧
    (loadAll es s).2.self.rootDir = s.self.rootDir ∧ (loadAll es s).2.self.currentStore = s.self.currentStore
  | [], s => ⟨rfl, rfl, rfl⟩
  | e :: es, s => by
    unfold loadAll
    split
    · exact ⟨rfl, rfl, rfl⟩
    · exact loadAll_frame es _

theorem keys_frame (s : Store) : s.keys.2.fs = s.fs ∧ s.keys.2.self.rootDir = s.self.rootDir ∧
    s.keys.2.self.currentStore = s.self.currentStore := by
  unfold Store.keys
  split
  · split
    · exact ⟨rfl, rfl, rfl⟩
    · rename_i entries _
      have h := loadAll_frame (s.filesAmong entries) s
      split
      · rename_i hr; rw [hr] at h; exact h
      · rename_i hr; rw [hr] at h; exact h
  · exact ⟨rfl, rfl, rfl⟩

theorem clear_self (s : Store) : s.clear.2.self = { s.self with cache := ∅ } := by
  unfold Store.clear
  simp only
  split <;> rfl

end TokioMqtt.Fs
