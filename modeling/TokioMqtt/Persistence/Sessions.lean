/-
Sessions of different clients on one store. All stores keep their packets in one directory, the root: the
name of the store is cut off before the key is put in its place. What a session is answered depends on the
sessions of others exactly through the files it looks at that one of them changed last. Only the listings,
which read a directory of the store's own name, are apart.
-/
import TokioMqtt.Persistence.Cells

namespace TokioMqtt.Fs

open Proto FileTree Store

/-! ## Sessions -/

/-- A client and a server whose joined name is a plain path component. -/
structure Peer where
  clientId : String
  serverUri : String
  name : FileName
  joined : name.str = storeName clientId serverUri
  deriving DecidableEq

/-- A store is opened for the peer, called, and closed. -/
structure Session where
  peer : Peer
  calls : List DataCall

/-- The results of calls on an open store, and the store they leave. -/
def runCalls : List DataCall → Store → List Result × Store
  | [], s => ([], s)
  | c :: cs, s => ((c.run s).1 :: (runCalls cs (c.run s).2).1, (runCalls cs (c.run s).2).2)

def Session.run (x : Session) (s : Store) : List Result × Store :=
  let (rs, s) := runCalls x.calls (s.openStore x.peer.clientId x.peer.serverUri)
  (rs, s.close)

/-- The results of the sessions of a peer, in a run of the sessions of many. -/
def answersOf (me : Peer) : List Session → Store → List (List Result)
  | [], _ => []
  | x :: xs, s =>
    if x.peer = me then (x.run s).1 :: answersOf me xs (x.run s).2 else answersOf me xs (x.run s).2

/-! ## What sessions see of each other -/

/-- The file in the root directory that a call looks at. -/
def DataCall.looksAt (s : Store) : DataCall → Option FileName
  | .onKey c => if c.reads (s.memory c.key) then some c.key else none
  | .keys => if s.self.cache.keys.isEmpty then s.self.currentStore.fileName else none
  | .clear => s.self.currentStore.fileName

/-- The file in the root directory that a call changes. -/
def DataCall.changes (s : Store) : DataCall → Option FileName
  | .onKey c => if c.writes (s.memory c.key) then some c.key else none
  | _ => none

/-- The files that others changed last, after a call of one's own and after a call of another. -/
def ownCall (foreign : List FileName) (c : DataCall) (s : Store) : List FileName :=
  foreign.filter fun k => c.changes s ≠ some k

def foreignCall (foreign : List FileName) (c : DataCall) (s : Store) : List FileName :=
  (c.changes s).toList ++ foreign

/-- Follows the files that others changed last over calls. -/
def follow (step : List FileName → DataCall → Store → List FileName) :
    List FileName → List DataCall → Store → List FileName
  | foreign, [], _ => foreign
  | foreign, c :: cs, s => follow step (step foreign c s) cs (c.run s).2

/-- None of the calls looks at a file that others changed last. -/
def Unseen : List FileName → List DataCall → Store → Prop
  | _, [], _ => True
  | foreign, c :: cs, s => (∀ k ∈ c.looksAt s, k ∉ foreign) ∧ Unseen (ownCall foreign c s) cs (c.run s).2

/-- The sessions of others are of stores of other names, and the sessions of `me` look at no file that they
changed last. -/
def Apart (me : Peer) : List FileName → List Session → Store → Prop
  | _, [], _ => True
  | foreign, x :: xs, s =>
    let opened := s.openStore x.peer.clientId x.peer.serverUri
    if x.peer = me then Unseen foreign x.calls opened ∧ Apart me (follow ownCall foreign x.calls opened) xs (x.run s).2
    else x.peer.name ≠ me.name ∧ Apart me (follow foreignCall foreign x.calls opened) xs (x.run s).2

/-! ## Trees that differ in the files of others -/

/-- The trees of a run with the sessions of others and of the run without: the same directories, the same packets
but for those that others changed last, and the same directory of the store `me`. -/
structure Mirror (root : Path FileName) (me : FileName) (foreign : List FileName) (t t' : Tree FileName Bytes) :
    Prop where
  dirs : Tree.SameDirs t t'
  failed : ∀ f, t.walk root = .error f → t' = t
  packets : ∀ k, k ∉ foreign → t'.under root k = t.under root k
  listing : ∀ l, t.walk root = .ok l → t'.children (l ++ [me]) = t.children (l ++ [me])
  shelf : ∀ l, t.walk root = .ok l → ∀ n, t'.node? (l ++ [me] ++ [n]) = t.node? (l ++ [me] ++ [n])

section
variable {root : Path FileName} {me key : FileName} {foreign foreign' : List FileName}
  {t t' u u' : Tree FileName Bytes}

theorem Mirror.refl (root : Path FileName) (me : FileName) (t : Tree FileName Bytes) : Mirror root me [] t t :=
  ⟨.refl t, fun _ _ => rfl, fun _ _ => rfl, fun _ _ => rfl, fun _ _ _ => rfl⟩

/-- Under a key of the root there is a directory in both trees or in neither. -/
theorem Mirror.similar (h : Mirror root me foreign t t') (k : FileName) :
    t'.under root k = t.under root k ∨
      ∃ o o', t.under root k = .ok o ∧ t'.under root k = .ok o' ∧ (o = some .dir ↔ o' = some .dir) := by
  cases hw : t.walk root with
  | error f =>
    left
    rw [h.failed f hw]
  | ok l =>
    right
    exact ⟨_, _, Tree.under_walk hw k, Tree.under_walk (Tree.walk_ok h.dirs hw) k, (h.dirs.dir _).symm⟩

theorem shelf_ne {l : Loc FileName} {x e k : FileName} : l ++ [x] ++ [e] ≠ l ++ [k] := by
  simp

/-! ### Calls on keys -/

theorem Touched.failed (h : Touched t root key u) {f : Fault} (hf : t.walk root = .error f) : u = t := by
  cases h with
  | same => rfl
  | written hw hn => rw [hf] at hw; cases hw
  | erased hw hn => rw [hf] at hw; cases hw

/-- A call on a key leaves the directory of a store. -/
theorem Touched.shelf (h : Touched t root key u) {l : Loc FileName} (hl : t.walk root = .ok l) (me : FileName) :
    u.children (l ++ [me]) = t.children (l ++ [me]) ∧
      ∀ n, u.node? (l ++ [me] ++ [n]) = t.node? (l ++ [me] ++ [n]) := by
  cases h with
  | same => exact ⟨rfl, fun _ => rfl⟩
  | written hw hn =>
    rw [hl] at hw
    cases hw
    refine ⟨Tree.children_setFile (by simp) _ _, fun n => ?_⟩
    rw [Tree.node?_setFile, if_neg shelf_ne]
  | erased hw hn =>
    rw [hl] at hw
    cases hw
    refine ⟨Tree.children_eraseNode (by simp) _, fun n => ?_⟩
    rw [Tree.node?_eraseNode, if_neg shelf_ne]

/-- Calls on one key, in both runs, leave what mirrors each other if they leave the same packets. -/
theorem Mirror.touched (h : Mirror root me foreign t t') (hu : Touched t root key u) (hu' : Touched t' root key u')
    (hp : ∀ k, k ∉ foreign' → u'.under root k = u.under root k) : Mirror root me foreign' u u' := by
  have hback : ∀ l, u.walk root = .ok l → t.walk root = .ok l := fun l => Tree.walk_ok hu.sameDirs.symm
  constructor
  · exact (hu.sameDirs.symm.trans h.dirs).trans hu'.sameDirs
  · intro f hf
    -- a root that is not there stays so, and nothing is written
    have hf0 : t.walk root = .error f := by
      cases hw : t.walk root with
      | error g => rw [← hf, hu.failed hw, hw]
      | ok l => rw [Tree.walk_ok hu.sameDirs hw] at hf; cases hf
    have hf1 : t'.walk root = .error f := by rw [h.failed f hf0]; exact hf0
    rw [hu.failed hf0, hu'.failed hf1, h.failed f hf0]
  · exact hp
  · intro l hl
    have hl0 := hback l hl
    rw [(hu.shelf hl0 me).1, (hu'.shelf (Tree.walk_ok h.dirs hl0) me).1]
    exact h.listing l hl0
  · intro l hl n
    have hl0 := hback l hl
    rw [(hu.shelf hl0 me).2, (hu'.shelf (Tree.walk_ok h.dirs hl0) me).2]
    exact h.shelf l hl0 n

end

/-- A call that does not look at the disk answers the same on disks that differ in a file, and leaves the same
disk if it writes. -/
theorem onCell_similar (k : KeyCall) {m : Option Bytes} {d d' : Disk} (hr : k.reads m = false)
    (hd : d' = d ∨ ∃ o o', d = .ok o ∧ d' = .ok o' ∧ (o = some .dir ↔ o' = some .dir)) :
    (k.onCell ⟨m, d'⟩).1 = (k.onCell ⟨m, d⟩).1 ∧ (k.onCell ⟨m, d'⟩).2.memory = (k.onCell ⟨m, d⟩).2.memory ∧
      (k.writes m = true → (k.onCell ⟨m, d'⟩).2.disk = (k.onCell ⟨m, d⟩).2.disk) := by
  rcases hd with rfl | ⟨o, o', rfl, rfl, hdir⟩
  · exact ⟨rfl, rfl, fun _ => rfl⟩
  cases k with
  | put key b =>
    rcases m with _ | b'
    · rcases o with _ | _ | x <;> rcases o' with _ | _ | y <;> simp_all [KeyCall.onCell, Cell.put]
    · exact ⟨rfl, rfl, fun h => by cases h⟩
  | contains key =>
    rcases m with _ | b'
    · cases hr
    · exact ⟨rfl, rfl, fun h => by cases h⟩
  | get key =>
    rcases m with _ | b'
    · cases hr
    · exact ⟨rfl, rfl, fun h => by cases h⟩
  | remove key =>
    rcases m with _ | b'
    · exact ⟨rfl, rfl, fun h => by cases h⟩
    · cases hr

section
variable {me : FileName} {foreign : List FileName} {s s' : Store} (hself : s'.self = s.self)
  (h : Mirror s.packetDir me foreign s.fs s'.fs) {c : KeyCall}
  (hl : ∀ k ∈ (DataCall.onKey c).looksAt s, k ∉ foreign)
include hself h hl

/-- What a call on a key answers and leaves of its cell is the same in both runs. -/
theorem Mirror.own_cell : (c.onCell (s'.cell c.key)).1 = (c.onCell (s.cell c.key)).1 ∧
    (c.onCell (s'.cell c.key)).2.memory = (c.onCell (s.cell c.key)).2.memory ∧
    (c.key ∉ foreign ∨ c.writes (s.memory c.key) = true →
      (c.onCell (s'.cell c.key)).2.disk = (c.onCell (s.cell c.key)).2.disk) := by
  have hdir : s'.packetDir = s.packetDir := by unfold packetDir; rw [hself]
  have hmem : s'.memory c.key = s.memory c.key := by unfold memory; rw [hself]
  have hcell : s'.cell c.key = ⟨s.memory c.key, s'.fs.under s.packetDir c.key⟩ := by
    rw [cell, hmem, Store.disk, hdir]
  by_cases hk : c.key ∈ foreign
  · have hr : c.reads (s.memory c.key) = false := by
      cases hr : c.reads (s.memory c.key) with
      | false => rfl
      | true => exact absurd hk (hl c.key (by simp [DataCall.looksAt, hr]))
    obtain ⟨h1, h2, h3⟩ := onCell_similar c hr (h.similar c.key)
    rw [hcell]
    exact ⟨h1, h2, fun hor => h3 (hor.resolve_left fun hn => hn hk)⟩
  · have hsame : s'.cell c.key = s.cell c.key := by
      rw [hcell, h.packets c.key hk]
      rfl
    rw [hsame]
    exact ⟨rfl, rfl, fun _ => rfl⟩

/-- A call of one's own on a key, in both runs. -/
theorem Mirror.own_key : (c.run s').1 = (c.run s).1 ∧ (c.run s').2.self = (c.run s).2.self ∧
    Mirror s.packetDir me (ownCall foreign (.onKey c) s) (c.run s).2.fs (c.run s').2.fs := by
  have hs := run_refines c s
  have hs' := run_refines c s'
  have hdir : s'.packetDir = s.packetDir := by unfold packetDir; rw [hself]
  obtain ⟨hans, hmem, hdisk⟩ := h.own_cell hself hl
  refine ⟨by rw [hs.answer, hs'.answer, hans], ?_, ?_⟩
  · have hcache : (c.run s').2.self.cache = (c.run s).2.self.cache := by rw [hs.cache, hs'.cache, hmem, hself]
    have hroot : (c.run s').2.self.rootDir = (c.run s).2.self.rootDir := by rw [hs.store.1, hs'.store.1, hself]
    have hcur : (c.run s').2.self.currentStore = (c.run s).2.self.currentStore := by
      rw [hs.store.2, hs'.store.2, hself]
    exact FsPersistence.ext hroot hcur hcache
  · refine h.touched hs.tree (hdir ▸ hs'.tree) fun k hk => ?_
    have hd : (c.run s).2.fs.under s.packetDir k = (c.run s).2.disk k := by
      unfold Store.disk packetDir; rw [hs.store.2]
    have hd' : (c.run s').2.fs.under s.packetDir k = (c.run s').2.disk k := by
      unfold Store.disk packetDir; rw [hs'.store.2, hself]
    rw [hd, hd']
    by_cases hkey : k = c.key
    · subst hkey
      have hwant : c.key ∉ foreign ∨ c.writes (s.memory c.key) = true := by
        by_cases hw : c.writes (s.memory c.key) = true
        · exact .inr hw
        · refine .inl fun hin => hk ?_
          simp [ownCall, hin, DataCall.changes, hw]
      exact (congrArg Cell.disk hs'.own).trans ((hdisk hwant).trans (congrArg Cell.disk hs.own).symm)
    · have hfor : k ∉ foreign := by
        intro hin
        apply hk
        have hne : c.key ≠ k := Ne.symm hkey
        by_cases hw : c.writes (s.memory c.key) = true <;> simp [ownCall, hin, DataCall.changes, hw, hne]
      have h1 : (c.run s').2.disk k = s'.disk k := congrArg Cell.disk (hs'.others k hkey)
      have h2 : (c.run s).2.disk k = s.disk k := congrArg Cell.disk (hs.others k hkey)
      rw [h1, h2]
      unfold Store.disk
      rw [hdir]
      exact h.packets k hfor

end

/-- A call of another on a key. -/
theorem Mirror.foreign_key {me : FileName} {foreign : List FileName} {s : Store} {t' : Tree FileName Bytes}
    (h : Mirror s.packetDir me foreign s.fs t') (c : KeyCall) :
    Mirror s.packetDir me (foreignCall foreign (.onKey c) s) (c.run s).2.fs t' := by
  have hs := run_refines c s
  refine h.touched hs.tree (.same : Touched t' s.packetDir c.key t') fun k hk => ?_
  have hfor : k ∉ foreign := fun hin => hk (List.mem_append_right _ hin)
  rw [h.packets k hfor]
  by_cases hkey : k = c.key
  · subst hkey
    have hidle : c.writes (s.memory c.key) = false := by
      cases hw : c.writes (s.memory c.key) with
      | false => rfl
      | true => exact absurd (by simp [foreignCall, DataCall.changes, hw]) hk
    rw [hs.idle hidle]
  · have h2 : (c.run s).2.disk k = s.disk k := congrArg Cell.disk (hs.others k hkey)
    unfold Store.disk packetDir at h2
    rw [hs.store.2] at h2
    exact h2.symm

/-! ### Listing and clearing -/

section
variable {root : Path FileName} {me : FileName} {foreign : List FileName} {t t' : Tree FileName Bytes}
  (h : Mirror root me foreign t t')
include h

/-- The directory of one's own store, if others leave its name alone. -/
theorem Mirror.walk_store (hme : me ∉ foreign) : t'.walk (root.push me) = t.walk (root.push me) := by
  cases hw : t.walk root with
  | error f => rw [h.failed f hw]
  | ok l =>
    have hw' := Tree.walk_ok h.dirs hw
    have hn := h.packets me hme
    rw [Tree.under_walk hw, Tree.under_walk hw'] at hn
    rw [Tree.walk_push, Tree.walk_push, hw, hw']
    simp only [Except.bind, Tree.enter, Except.ok.inj hn]

theorem Mirror.under_store (hme : me ∉ foreign) (e : FileName) :
    t'.under (root.push me) e = t.under (root.push me) e := by
  have hw := h.walk_store hme
  cases hs : t.walk (root.push me) with
  | error f =>
    rw [hs] at hw
    rw [Tree.under_error.2 hs, Tree.under_error.2 hw]
  | ok m =>
    rw [hs] at hw
    obtain ⟨l, hl, rfl⟩ := Tree.walk_push_ok hs
    rw [Tree.under_walk hs, Tree.under_walk hw, h.shelf l hl]

theorem Mirror.read_store (hme : me ∉ foreign) (e : FileName) :
    t'.read ((root.push me).push e) = t.read ((root.push me).push e) := by
  rw [Tree.read_push, Tree.read_push, h.under_store hme]

theorem Mirror.readDir_store (hme : me ∉ foreign) : t'.readDir (root.push me) = t.readDir (root.push me) := by
  have hw := h.walk_store hme
  unfold Tree.readDir
  rw [hw]
  cases hs : t.walk (root.push me) with
  | error f => rfl
  | ok m =>
    obtain ⟨l, hl, rfl⟩ := Tree.walk_push_ok hs
    simp only [Except.map, h.listing l hl]

end

/-- A file taken away from the directory of a store leaves the directories and the packets. -/
theorem erase_shelf {root : Path FileName} {t : Tree FileName Bytes} {l : Loc FileName} {x e : FileName} {b : Bytes}
    (hl : t.walk root = .ok l) (hn : t.node? (l ++ [x] ++ [e]) = some (.file b)) :
    Tree.SameDirs t (t.eraseNode (l ++ [x] ++ [e])) ∧
      ∀ k, (t.eraseNode (l ++ [x] ++ [e])).under root k = t.under root k := by
  have hd : Tree.SameDirs t (t.eraseNode (l ++ [x] ++ [e])) := Tree.eraseNode_sameDirs (by rw [hn]; nofun)
  refine ⟨hd, fun k => ?_⟩
  rw [Tree.under_walk hl, Tree.under_walk (Tree.walk_ok hd hl), Tree.node?_eraseNode, if_neg (Ne.symm shelf_ne)]

section
variable {root : Path FileName} {me : FileName} {foreign : List FileName}

/-- A file taken away from one's own store, in both runs. -/
theorem Mirror.own_erase {t t' : Tree FileName Bytes} (h : Mirror root me foreign t t') {l : Loc FileName}
    (hl : t.walk root = .ok l) {e : FileName} {b : Bytes} (hn : t.node? (l ++ [me] ++ [e]) = some (.file b)) :
    Mirror root me foreign (t.eraseNode (l ++ [me] ++ [e])) (t'.eraseNode (l ++ [me] ++ [e])) := by
  have hn' : t'.node? (l ++ [me] ++ [e]) = some (.file b) := by rw [h.shelf l hl]; exact hn
  obtain ⟨hd, hp⟩ := erase_shelf hl hn
  obtain ⟨hd', hp'⟩ := erase_shelf (Tree.walk_ok h.dirs hl) hn'
  have hw := Tree.walk_ok hd hl
  refine ⟨(hd.symm.trans h.dirs).trans hd', ?_, ?_, ?_, ?_⟩
  · intro f hf
    rw [hw] at hf
    cases hf
  · intro k hk
    rw [hp, hp', h.packets k hk]
  · intro l0 hl0
    rw [hw] at hl0
    cases hl0
    rw [Tree.children_eraseNode_self, Tree.children_eraseNode_self, h.listing l hl]
  · intro l0 hl0 n
    rw [hw] at hl0
    cases hl0
    rw [Tree.node?_eraseNode, Tree.node?_eraseNode, h.shelf l hl]

/-- A file taken away from the store of another. -/
theorem Mirror.foreign_erase {other : FileName} (hne : other ≠ me) {t t' : Tree FileName Bytes}
    (h : Mirror root me foreign t t') {l : Loc FileName} (hl : t.walk root = .ok l) {e : FileName} {b : Bytes}
    (hn : t.node? (l ++ [other] ++ [e]) = some (.file b)) :
    Mirror root me foreign (t.eraseNode (l ++ [other] ++ [e])) t' := by
  obtain ⟨hd, hp⟩ := erase_shelf hl hn
  have hw := Tree.walk_ok hd hl
  refine ⟨hd.symm.trans h.dirs, ?_, ?_, ?_, ?_⟩
  · intro f hf
    rw [hw] at hf
    cases hf
  · intro k hk
    rw [hp, h.packets k hk]
  · intro l0 hl0
    rw [hw] at hl0
    cases hl0
    rw [Tree.children_eraseNode (by simpa using hne), h.listing l hl]
  · intro l0 hl0 n
    rw [hw] at hl0
    cases hl0
    rw [Tree.node?_eraseNode, if_neg (by simpa using fun heq => absurd heq (Ne.symm hne)), h.shelf l hl]

/-- The loop of `clear` in one's own store, in both runs. -/
theorem Mirror.own_removeAll (hme : me ∉ foreign) : ∀ (es : List FileName) {t t' : Tree FileName Bytes},
    Mirror root me foreign t t' →
    (removeAll (root.push me) es t').1 = (removeAll (root.push me) es t).1 ∧
      Mirror root me foreign (removeAll (root.push me) es t).2 (removeAll (root.push me) es t').2
  | [], t, t', h => ⟨rfl, h⟩
  | e :: es, t, t', h => by
    have hread := h.read_store hme e
    unfold removeAll Tree.isFile
    rw [hread]
    cases hr : t.read ((root.push me).push e) with
    | error f =>
      simp only [Bool.false_eq_true, if_false]
      exact h.own_removeAll hme es
    | ok b =>
      simp only [if_true]
      obtain ⟨m, hm, hnode⟩ := Tree.read_ok hr
      obtain ⟨l, hl, rfl⟩ := Tree.walk_push_ok hm
      have hm' : t'.walk (root.push me) = .ok (l ++ [me]) := by rw [h.walk_store hme]; exact hm
      have hnode' : t'.node? (l ++ [me] ++ [e]) = some (.file b) := by rw [h.shelf l hl]; exact hnode
      rw [Tree.removeFile_ok hm hnode, Tree.removeFile_ok hm' hnode']
      exact (h.own_erase hl hnode).own_removeAll hme es

/-- The loop of `clear` in the store of another. -/
theorem Mirror.foreign_removeAll {other : FileName} (hne : other ≠ me) :
    ∀ (es : List FileName) {t t' : Tree FileName Bytes}, Mirror root me foreign t t' →
      Mirror root me foreign (removeAll (root.push other) es t).2 t'
  | [], t, t', h => h
  | e :: es, t, t', h => by
    unfold removeAll Tree.isFile
    cases hr : t.read ((root.push other).push e) with
    | error f =>
      simp only [Bool.false_eq_true, if_false]
      exact h.foreign_removeAll hne es
    | ok b =>
      simp only [if_true]
      obtain ⟨m, hm, hnode⟩ := Tree.read_ok hr
      obtain ⟨l, hl, rfl⟩ := Tree.walk_push_ok hm
      rw [Tree.removeFile_ok hm hnode]
      exact (h.foreign_erase hne hl hnode).foreign_removeAll hne es

end

theorem loadAll_congr : ∀ (es : List FileName) {s s' : Store}, s'.self = s.self →
    (∀ e, s'.fs.read (s.self.currentStore.push e) = s.fs.read (s.self.currentStore.push e)) →
    (loadAll es s').1 = (loadAll es s).1 ∧ (loadAll es s').2.self = (loadAll es s).2.self
  | [], s, s', hself, _ => ⟨rfl, hself⟩
  | e :: es, s, s', hself, hread => by
    unfold loadAll
    rw [hself, hread e]
    split
    · exact ⟨rfl, hself⟩
    · rename_i v _
      exact loadAll_congr es (by unfold cached; rw [hself]) hread

section
variable {me : FileName} {foreign : List FileName} {s s' : Store} (hself : s'.self = s.self)
  (hcur : s.self.currentStore = s.self.rootDir.push me) (h : Mirror s.self.rootDir me foreign s.fs s'.fs)
include hself hcur h

theorem Mirror.own_keys (hl : ∀ k ∈ DataCall.keys.looksAt s, k ∉ foreign) :
    s'.keys.1 = s.keys.1 ∧ s'.keys.2.self = s.keys.2.self := by
  unfold Store.keys
  rw [hself]
  by_cases hempty : s.self.cache.keys.isEmpty = true
  · have hme : me ∉ foreign := hl me (by simp [DataCall.looksAt, hempty, hcur])
    have hread : ∀ e, s'.fs.read (s.self.currentStore.push e) = s.fs.read (s.self.currentStore.push e) := by
      rw [hcur]
      exact h.read_store hme
    have hdir : s'.fs.readDir s.self.currentStore = s.fs.readDir s.self.currentStore := by
      rw [hcur]
      exact h.readDir_store hme
    rw [if_pos hempty, if_pos hempty, hdir]
    split
    · exact ⟨rfl, hself⟩
    · rename_i entries _
      have hfiles : s'.filesAmong entries = s.filesAmong entries := by
        unfold filesAmong Tree.isFile
        rw [hself]
        simp only [hread]
      have hload := loadAll_congr (s.filesAmong entries) hself hread
      rw [hfiles]
      rcases hr : loadAll (s.filesAmong entries) s with ⟨r, u⟩
      rcases hr' : loadAll (s.filesAmong entries) s' with ⟨r', u'⟩
      rw [hr, hr'] at hload
      obtain ⟨rfl, hu⟩ := hload
      cases r' with
      | error e => exact ⟨rfl, hu⟩
      | ok a => exact ⟨congrArg (fun self => Except.ok self.cache.keys) hu, hu⟩
  · rw [if_neg hempty, if_neg hempty]
    exact ⟨rfl, hself⟩

theorem Mirror.own_clear (hl : ∀ k ∈ DataCall.clear.looksAt s, k ∉ foreign) :
    s'.clear.1 = s.clear.1 ∧ s'.clear.2.self = s.clear.2.self ∧
      Mirror s.self.rootDir me foreign s.clear.2.fs s'.clear.2.fs := by
  have hme : me ∉ foreign := hl me (by simp [DataCall.looksAt, hcur])
  have hdir : s'.fs.readDir s.self.currentStore = s.fs.readDir s.self.currentStore := by
    rw [hcur]
    exact h.readDir_store hme
  refine ⟨?_, by rw [clear_self, clear_self, hself], ?_⟩
  all_goals
    unfold Store.clear
    simp only [hself, hdir]
    cases s.fs.readDir s.self.currentStore with
    | error f => first | rfl | exact h
    | ok entries =>
      simp only [hcur]
      first
        | exact (h.own_removeAll hme entries).1
        | exact (h.own_removeAll hme entries).2

/-- A call of one's own, in both runs. -/
theorem Mirror.own_call {c : DataCall} (hl : ∀ k ∈ c.looksAt s, k ∉ foreign) :
    (c.run s').1 = (c.run s).1 ∧ (c.run s').2.self = (c.run s).2.self ∧
      Mirror s.self.rootDir me (ownCall foreign c s) (c.run s).2.fs (c.run s').2.fs := by
  have hdir : s.packetDir = s.self.rootDir := by rw [packetDir, hcur, Path.dir_push]
  have hown : ∀ c, DataCall.changes s c = none → ownCall foreign c s = foreign := by
    intro c hc
    simp [ownCall, hc]
  cases c with
  | onKey c =>
    rw [← hdir] at h ⊢
    exact h.own_key hself hl
  | keys =>
    obtain ⟨hans, hkeys⟩ := h.own_keys hself hcur hl
    refine ⟨by simp only [DataCall.run, hans], hkeys, ?_⟩
    rw [hown _ rfl]
    simp only [DataCall.run, (keys_frame s).1, (keys_frame s').1]
    exact h
  | clear =>
    obtain ⟨hans, hclear, hm⟩ := h.own_clear hself hcur hl
    refine ⟨by simp only [DataCall.run, hans], hclear, ?_⟩
    rw [hown _ rfl]
    exact hm

end

/-- A call in a session of another. -/
theorem Mirror.foreign_call {me other : FileName} {foreign : List FileName} {s : Store} {t' : Tree FileName Bytes}
    (hcur : s.self.currentStore = s.self.rootDir.push other) (hne : other ≠ me)
    (h : Mirror s.self.rootDir me foreign s.fs t') (c : DataCall) :
    Mirror s.self.rootDir me (foreignCall foreign c s) (c.run s).2.fs t' := by
  have hdir : s.packetDir = s.self.rootDir := by rw [packetDir, hcur, Path.dir_push]
  cases c with
  | onKey c =>
    rw [← hdir] at h ⊢
    exact h.foreign_key c
  | keys =>
    simp only [DataCall.run, (keys_frame s).1]
    exact h
  | clear =>
    show Mirror s.self.rootDir me foreign s.clear.2.fs t'
    unfold Store.clear
    simp only
    split
    · exact h
    · rw [hcur]
      exact h.foreign_removeAll hne _

theorem data_store (c : DataCall) (s : Store) :
    (c.run s).2.self.rootDir = s.self.rootDir ∧ (c.run s).2.self.currentStore = s.self.currentStore := by
  cases c with
  | onKey c => exact (run_refines c s).store
  | keys => exact (keys_frame s).2
  | clear =>
    show s.clear.2.self.rootDir = _ ∧ s.clear.2.self.currentStore = _
    rw [clear_self]
    exact ⟨rfl, rfl⟩

/-! ## Runs of sessions -/

theorem Mirror.own_calls {me : FileName} {root : Path FileName} : ∀ (cs : List DataCall) {foreign : List FileName}
    {s s' : Store}, s'.self = s.self → s.self.rootDir = root → s.self.currentStore = root.push me →
    Mirror root me foreign s.fs s'.fs → Unseen foreign cs s →
    (runCalls cs s').1 = (runCalls cs s).1 ∧ (runCalls cs s).2.self.rootDir = root ∧
      (runCalls cs s').2.self.rootDir = root ∧
      Mirror root me (follow ownCall foreign cs s) (runCalls cs s).2.fs (runCalls cs s').2.fs
  | [], _, s, s', hself, hroot, _, h, _ => ⟨rfl, hroot, by rw [runCalls, hself]; exact hroot, h⟩
  | c :: cs, foreign, s, s', hself, hroot, hcur, h, hu => by
    obtain ⟨hl, hu⟩ := hu
    obtain ⟨hr, hc⟩ := data_store c s
    subst hroot
    obtain ⟨hans, hself', h'⟩ := h.own_call hself hcur hl
    obtain ⟨hanss, hroot, hroot', hm⟩ := Mirror.own_calls cs hself' hr (hc.trans hcur) h' hu
    exact ⟨by rw [runCalls, runCalls, hans, hanss], hroot, hroot', hm⟩

theorem Mirror.foreign_calls {me other : FileName} {root : Path FileName} (hne : other ≠ me) :
    ∀ (cs : List DataCall) {foreign : List FileName} {s : Store} {t' : Tree FileName Bytes},
    s.self.rootDir = root → s.self.currentStore = root.push other → Mirror root me foreign s.fs t' →
    (runCalls cs s).2.self.rootDir = root ∧ Mirror root me (follow foreignCall foreign cs s) (runCalls cs s).2.fs t'
  | [], _, s, _, hroot, _, h => ⟨hroot, h⟩
  | c :: cs, foreign, s, t', hroot, hcur, h => by
    obtain ⟨hr, hc⟩ := data_store c s
    subst hroot
    exact Mirror.foreign_calls hne cs hr (hc.trans hcur) (h.foreign_call hcur hne c)

theorem openStore_current (x : Peer) (s : Store) :
    (s.openStore x.clientId x.serverUri).self.currentStore = s.self.rootDir.push x.name := by
  have hparse : parsePath (storeName x.clientId x.serverUri) = ⟨false, [.name x.name]⟩ := by
    rw [← x.joined]
    exact parsePath_plain x.name
  unfold openStore
  rw [hparse]
  rfl

/-- A store that is closed, as a new one is. -/
def Closed (root : Path FileName) (s : Store) : Prop := s.self = ⟨root, .empty, ∅⟩

theorem close_closed {root : Path FileName} {s : Store} (h : s.self.rootDir = root) : Closed root s.close := by
  subst h
  rfl

theorem answers_mirror {me : Peer} {root : Path FileName} : ∀ (xs : List Session) {foreign : List FileName}
    {s s' : Store}, Closed root s → Closed root s' → Mirror root me.name foreign s.fs s'.fs → Apart me foreign xs s →
    answersOf me xs s = answersOf me (xs.filter (·.peer = me)) s'
  | [], _, _, _, _, _, _, _ => rfl
  | x :: xs, foreign, s, s', hs, hs', h, hap => by
    have hroot : s.self.rootDir = root := by rw [hs]
    have hcur : (s.openStore x.peer.clientId x.peer.serverUri).self.currentStore = root.push x.peer.name := by
      rw [openStore_current, hroot]
    have hroot' : (s.openStore x.peer.clientId x.peer.serverUri).self.rootDir = root := hroot
    by_cases hx : x.peer = me
    · subst hx
      rw [Apart, if_pos rfl] at hap
      obtain ⟨hu, hap⟩ := hap
      have hself : (s'.openStore x.peer.clientId x.peer.serverUri).self =
          (s.openStore x.peer.clientId x.peer.serverUri).self := by
        unfold openStore
        rw [hs, hs']
      obtain ⟨hans, hr, hr', hm⟩ := Mirror.own_calls x.calls hself hroot' hcur h hu
      have htail := answers_mirror xs (close_closed hr) (close_closed hr') hm hap
      rw [List.filter_cons_of_pos (by simp), answersOf, answersOf, if_pos rfl, if_pos rfl]
      exact congrArg₂ List.cons hans.symm htail
    · rw [Apart, if_neg hx] at hap
      obtain ⟨hne, hap⟩ := hap
      obtain ⟨hr, hm⟩ := Mirror.foreign_calls hne x.calls hroot' hcur h
      rw [List.filter_cons_of_neg (by simpa using hx), answersOf, if_neg hx]
      exact answers_mirror xs (close_closed hr) hs' hm hap

instance decidableUnseen : ∀ (foreign : List FileName) (cs : List DataCall) (s : Store), Decidable (Unseen foreign cs s)
  | _, [], _ => isTrue trivial
  | foreign, c :: cs, s =>
    have := decidableUnseen (ownCall foreign c s) cs (c.run s).2
    inferInstanceAs (Decidable ((∀ k ∈ c.looksAt s, k ∉ foreign) ∧ _))

instance decidableApart (me : Peer) :
    ∀ (foreign : List FileName) (xs : List Session) (s : Store), Decidable (Apart me foreign xs s)
  | _, [], _ => isTrue trivial
  | foreign, x :: xs, s =>
    let opened := s.openStore x.peer.clientId x.peer.serverUri
    have := decidableApart me (follow ownCall foreign x.calls opened) xs (x.run s).2
    have := decidableApart me (follow foreignCall foreign x.calls opened) xs (x.run s).2
    inferInstanceAs (Decidable (if x.peer = me then Unseen foreign x.calls opened ∧ _ else x.peer.name ≠ me.name ∧ _))

def alice : Peer := ⟨"alice", "server", ⟨"alice@server", by decide⟩, by decide⟩

def bob : Peer := ⟨"bob", "server", ⟨"bob@server", by decide⟩, by decide⟩

end TokioMqtt.Fs
