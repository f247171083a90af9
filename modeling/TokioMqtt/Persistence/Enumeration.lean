/-
The two views of an open store. Lookups go to files in the packet directory; `keys` answers from memory, or,
when nothing is there, from the directory of the store's own name, which `clear` empties too. No call makes
that directory. The views agree exactly in the states described by `Warm` and `ClearFits`.
-/
import TokioMqtt.Persistence.Cells

namespace TokioMqtt.Fs

open Proto FileTree Store

/-! ## What is asked of the two views -/

/-- `keys` succeeds with exactly the keys that `contains` finds, each once. -/
def Enumerates (s : Store) : Prop :=
  ∃ ks, s.keys.1 = .ok ks ∧ ks.Nodup ∧ ∀ k, k ∈ ks ↔ (s.contains k).1 = .ok (some ())

/-- After a `clear` that succeeds, `contains` finds no key. -/
def Clears (s : Store) : Prop := s.clear.1 = .ok () → ∀ k, (s.clear.2.contains k).1 = .ok none

/-! ## When they agree -/

/-- A file in the directory of the store's own name. -/
def Store.inStoreDir (s : Store) (k : FileName) : Bool := s.fs.isFile (s.self.currentStore.push k)

/-- Every packet with a file is in memory; or nothing is, and the store has a directory with the same files as
the packet directory. -/
def Warm (s : Store) : Prop :=
  if s.self.cache.keys.isEmpty then
    (∃ es, s.fs.readDir s.self.currentStore = .ok es) ∧ ∀ k, s.inStoreDir k = (s.cell k).stored
  else ∀ k, (s.cell k).stored = true → (s.memory k).isSome = true

/-- The store has no directory; or it is the packet directory, and no key is the name of a directory. -/
def ClearFits (s : Store) : Prop :=
  (∃ f, s.fs.readDir s.self.currentStore = .error f) ∨
    (s.self.currentStore.fileName = none ∧ ∀ k, s.disk k ≠ .ok (some .dir))

/-! ## Lookups -/

/-- What `contains` answers is told by the key's cell. -/
theorem contains_cell {s : Store} {k : FileName} {r : Option Unit} :
    (s.contains k).1 = .ok r ↔ (Cell.contains (s.cell k)).1 = .ok (.found r) := by
  have h := (run_refines (.contains k) s).answer
  have hrun : (KeyCall.run (.contains k) s).1 = ((s.contains k).1).map .found := rfl
  rw [hrun] at h
  show _ ↔ ((KeyCall.contains k).onCell (s.cell k)).1 = _
  rw [KeyCall.key] at h
  rw [← h]
  cases (s.contains k).1 <;> simp [Except.map]

theorem contains_found {s : Store} {k : FileName} :
    (s.contains k).1 = .ok (some ()) ↔ (s.memory k).isSome = true ∨ (s.cell k).stored = true := by
  rw [contains_cell]
  unfold cell Cell.contains Cell.stored
  rcases s.memory k with _ | b
  · rcases s.disk k with f | _ | _ | b <;> simp
  · simp

/-- A key that is not in memory is not found exactly if nothing has its name. -/
theorem contains_none {s : Store} {k : FileName} (hm : s.memory k = none) :
    (s.contains k).1 = .ok none ↔ ∀ x, s.disk k ≠ .ok (some x) := by
  rw [contains_cell]
  unfold cell Cell.contains
  rw [hm]
  rcases s.disk k with f | _ | _ | b <;> simp

/-! ## Listings -/

/-- Reading files that are there into the memory. -/
theorem loadAll_ok : ∀ (es : List FileName) {s : Store}, (∀ e ∈ es, s.inStoreDir e = true) →
    (loadAll es s).1 = .ok () ∧
      ∀ k, ((loadAll es s).2.memory k).isSome = true ↔ (s.memory k).isSome = true ∨ k ∈ es
  | [], s, _ => by simp [loadAll]
  | e :: es, s, h => by
    have he := h e (List.mem_cons_self ..)
    unfold loadAll
    cases hr : s.fs.read (s.self.currentStore.push e) with
    | error f =>
      unfold inStoreDir Tree.isFile at he
      rw [hr] at he
      cases he
    | ok v =>
      obtain ⟨hok, hmem⟩ := loadAll_ok es (s := s.cached e v) fun e' he' => h e' (List.mem_cons_of_mem _ he')
      refine ⟨hok, fun k => ?_⟩
      rw [hmem, memory_cached]
      by_cases hk : k = e
      · simp [hk]
      · simp [hk]

theorem mem_cacheKeys (s : Store) (k : FileName) : k ∈ s.self.cache.keys ↔ (s.memory k).isSome = true :=
  AList.lookup_isSome.symm

theorem mem_filesAmong {s : Store} {es : List FileName} (h : s.fs.readDir s.self.currentStore = .ok es)
    (k : FileName) : k ∈ s.filesAmong es ↔ s.inStoreDir k = true := by
  unfold filesAmong
  rw [List.mem_filter]
  refine ⟨And.right, fun hk => ⟨?_, hk⟩⟩
  -- a file of the directory is in its listing
  unfold inStoreDir Tree.isFile at hk
  cases hr : s.fs.read (s.self.currentStore.push k) with
  | error f => rw [hr] at hk; cases hk
  | ok b =>
    obtain ⟨l, hl, hn⟩ := Tree.read_ok hr
    obtain ⟨l', hl', rfl⟩ := Tree.readDir_ok h
    rw [hl] at hl'
    cases hl'
    rw [Tree.mem_children, hn]
    rfl

theorem enumerates_iff (s : Store) : Enumerates s ↔ Warm s := by
  unfold Enumerates Warm Store.keys
  by_cases hempty : s.self.cache.keys.isEmpty = true
  · have hnone : ∀ k, (s.memory k).isSome = false := by
      intro k
      have h := mem_cacheKeys s k
      rw [List.isEmpty_iff.1 hempty] at h
      simpa using h
    rw [if_pos hempty, if_pos hempty]
    cases hd : s.fs.readDir s.self.currentStore with
    | error f => simp
    | ok es =>
      have hfiles := mem_filesAmong hd
      obtain ⟨hok, hmem⟩ := loadAll_ok (s.filesAmong es) (s := s) fun e he => (hfiles e).1 he
      rcases hl : loadAll (s.filesAmong es) s with ⟨r, u⟩
      rw [hl] at hok hmem
      simp only at hok hmem
      subst hok
      simp only [hl]
      have hkeys : ∀ k, k ∈ u.self.cache.keys ↔ s.inStoreDir k = true := by
        intro k
        rw [mem_cacheKeys, hmem, hfiles, hnone]
        simp
      simp only [contains_found, hnone, Bool.false_eq_true, false_or]
      constructor
      · rintro ⟨ks, hks, -, hiff⟩
        cases hks
        refine ⟨⟨es, rfl⟩, fun k => ?_⟩
        rw [Bool.eq_iff_iff, ← hkeys, hiff]
      · rintro ⟨-, hsame⟩
        refine ⟨_, rfl, u.self.cache.keys_nodup, fun k => ?_⟩
        rw [hkeys, hsame]
  · rw [if_neg hempty, if_neg hempty]
    simp only [contains_found]
    constructor
    · rintro ⟨ks, hks, -, hiff⟩ k hst
      cases hks
      exact (mem_cacheKeys s k).1 ((hiff k).2 (.inr hst))
    · intro hwarm
      refine ⟨_, rfl, s.self.cache.keys_nodup, fun k => ?_⟩
      rw [mem_cacheKeys]
      exact ⟨.inl, fun h => h.elim id (hwarm k)⟩

/-! ## Clearing -/

/-- The loop of `clear` takes away the files it is given and keeps everything else that is there. -/
theorem removeAll_ok {store : Path FileName} {l : Loc FileName} : ∀ (es : List FileName) {t : Tree FileName Bytes},
    t.walk store = .ok l →
    (removeAll store es t).1 = .ok () ∧ Tree.SameDirs t (removeAll store es t).2 ∧
      (∀ n, t.node? (l ++ [n]) = none → (removeAll store es t).2.node? (l ++ [n]) = none) ∧
      ∀ n ∈ es, ∀ b, (removeAll store es t).2.node? (l ++ [n]) ≠ some (.file b)
  | [], t, _ => ⟨rfl, .refl t, fun _ h => h, fun n hn => absurd hn List.not_mem_nil⟩
  | e :: es, t, hw => by
    unfold removeAll Tree.isFile
    rw [Tree.read_push, Tree.under_walk hw]
    rcases hn : t.node? (l ++ [e]) with _ | _ | b
    · obtain ⟨h1, h2, h3, h4⟩ := removeAll_ok es hw
      refine ⟨h1, h2, h3, fun n hmem b hb => ?_⟩
      rcases List.mem_cons.1 hmem with rfl | hmem
      · have := h3 n hn
        exact absurd hb (by simp [Except.bind, Tree.content, this])
      · exact h4 n hmem b hb
    · obtain ⟨h1, h2, h3, h4⟩ := removeAll_ok es hw
      refine ⟨h1, h2, h3, fun n hmem b hb => ?_⟩
      rcases List.mem_cons.1 hmem with rfl | hmem
      · have := (h2.dir (l ++ [n])).2 hn
        exact absurd hb (by simp [Except.bind, Tree.content, this])
      · exact h4 n hmem b hb
    · have hne : t.node? (l ++ [e]) ≠ some .dir := by rw [hn]; simp
      have hd := Tree.eraseNode_sameDirs (t := t) hne
      have hgone : (t.eraseNode (l ++ [e])).node? (l ++ [e]) = none := by rw [Tree.node?_eraseNode, if_pos rfl]
      obtain ⟨h1, h2, h3, h4⟩ := removeAll_ok es (Tree.walk_ok hd hw)
      simp only [Except.bind, Tree.content, if_true, Tree.removeFile_ok hw hn]
      refine ⟨h1, hd.trans h2, fun n hnone => ?_, fun n hmem b hb => ?_⟩
      · apply h3
        rw [Tree.node?_eraseNode]
        split
        · rfl
        · exact hnone
      · rcases List.mem_cons.1 hmem with rfl | hmem
        · rw [h3 n hgone] at hb
          cases hb
        · exact h4 n hmem b hb

/-- `clear` on a listed directory: it empties the memory, and the disk is what its loop leaves. -/
theorem clear_listed {s : Store} {es : List FileName} (hd : s.fs.readDir s.self.currentStore = .ok es) :
    s.clear.1 = (removeAll s.self.currentStore es s.fs).1 ∧ (∀ k, s.clear.2.memory k = none) ∧
      ∀ k, s.clear.2.disk k = (removeAll s.self.currentStore es s.fs).2.under s.packetDir k := by
  have hself := clear_self s
  have hres : s.clear.1 = (removeAll s.self.currentStore es s.fs).1 := by
    unfold Store.clear
    simp only [hd]
  have hfs : s.clear.2.fs = (removeAll s.self.currentStore es s.fs).2 := by
    unfold Store.clear
    simp only [hd]
  have hdir : s.clear.2.packetDir = s.packetDir := by unfold packetDir; rw [hself]
  refine ⟨hres, fun k => ?_, fun k => ?_⟩
  · unfold memory
    rw [hself]
    exact AList.lookup_empty k
  · unfold Store.disk
    rw [hfs, hdir]

theorem clears_iff (s : Store) : Clears s ↔ ClearFits s := by
  unfold Clears ClearFits
  cases hd : s.fs.readDir s.self.currentStore with
  | error f =>
    have hclear : s.clear.1 = .error (faultKind f) := by
      unfold Store.clear
      simp only [hd]
    simp [hclear]
  | ok es =>
    obtain ⟨l, hw, hes⟩ := Tree.readDir_ok hd
    obtain ⟨hok, hdirs, hnone, hfile⟩ := removeAll_ok es hw
    obtain ⟨hres, hmem, hdisk⟩ := clear_listed hd
    have hiff : (∀ k, (s.clear.2.contains k).1 = .ok none) ↔ ∀ k x, s.clear.2.disk k ≠ .ok (some x) :=
      forall_congr' fun k => contains_none (hmem k)
    simp only [hres, hok, true_implies, hiff, hdisk, reduceCtorEq, exists_false, false_or]
    cases hname : s.self.currentStore.fileName with
    | some n =>
      -- the directory of the store is itself a name in the packet directory
      have hpush : s.packetDir.push n = s.self.currentStore := Path.push_dir hname
      simp only [reduceCtorEq, false_and, iff_false]
      intro hall
      rw [← hpush] at hw
      obtain ⟨l0, hl0, rfl⟩ := Tree.walk_push_ok hw
      apply hall n .dir
      rw [Tree.under_walk (Tree.walk_ok hdirs hl0), (hdirs.dir _).2 (Tree.walk_dir hw)]
    | none =>
      have hsame : s.packetDir = s.self.currentStore := by
        unfold packetDir Path.dir
        rw [hname]
        simp
      have hunder : ∀ k, s.disk k = .ok (s.fs.node? (l ++ [k])) := by
        intro k
        unfold Store.disk
        rw [hsame, Tree.under_walk hw]
      have hunder' : ∀ k, (removeAll s.self.currentStore es s.fs).2.under s.packetDir k =
          .ok ((removeAll s.self.currentStore es s.fs).2.node? (l ++ [k])) := by
        intro k
        rw [hsame, Tree.under_walk (Tree.walk_ok hdirs hw)]
      simp only [true_and, hunder, hunder', ne_eq, Except.ok.injEq]
      constructor
      · intro hall k hk
        exact hall k .dir ((hdirs.dir _).2 hk)
      · rintro hall k (_ | b) hk
        · exact hall k ((hdirs.dir _).1 hk)
        · by_cases hmem : k ∈ es
          · exact hfile k hmem b hk
          · rw [hes, Tree.mem_children] at hmem
            have hnot : s.fs.node? (l ++ [k]) = none := by simpa using hmem
            rw [hnone k hnot] at hk
            cases hk

/-! ## In every run -/

/-- No call makes or removes a directory. -/
theorem data_sameDirs (c : DataCall) (s : Store) : Tree.SameDirs s.fs (c.run s).2.fs := by
  cases c with
  | onKey c => exact (run_refines c s).tree.sameDirs
  | keys =>
    show Tree.SameDirs s.fs s.keys.2.fs
    rw [(keys_frame s).1]
    exact .refl _
  | clear =>
    show Tree.SameDirs s.fs s.clear.2.fs
    unfold Store.clear
    simp only
    split
    · exact .refl _
    · rename_i es hd
      obtain ⟨l, hw, -⟩ := Tree.readDir_ok hd
      exact (removeAll_ok es hw).2.1

theorem exec_sameDirs : ∀ (cs : List Call) (s : Store), Tree.SameDirs s.fs (exec s cs).fs
  | [], s => .refl _
  | c :: cs, s => by
    have hstep : Tree.SameDirs s.fs (c.run s).2.fs := by
      cases c with
      | openStore clientId serverUri => exact .refl _
      | close => exact .refl _
      | data c => exact data_sameDirs c s
    exact hstep.trans (exec_sameDirs cs _)

/-- A store whose name is no directory at first cannot be listed from disk, whatever was called. -/
theorem keys_cold_fails (path : String) (fs : Tree FileName Bytes) (cs : List Call)
    (hcold : (exec (Store.new path fs) cs).self.cache.keys.isEmpty = true)
    (hno : ∀ l, fs.walk (exec (Store.new path fs) cs).self.currentStore ≠ .ok l) :
    ∃ e, (exec (Store.new path fs) cs).keys.1 = .error e := by
  unfold Store.keys
  rw [if_pos hcold]
  have hdirs := exec_sameDirs cs (Store.new path fs)
  generalize exec (Store.new path fs) cs = s at *
  obtain ⟨f, hf⟩ : ∃ f, s.fs.readDir s.self.currentStore = .error f := by
    unfold Tree.readDir
    split
    · exact ⟨_, rfl⟩
    · cases hw : s.fs.walk s.self.currentStore with
      | error f => exact ⟨f, rfl⟩
      | ok l => exact absurd (Tree.walk_ok hdirs.symm hw) (hno l)
  rw [hf]
  exact ⟨faultKind f, rfl⟩

/-- In every state reached the two views agree exactly if the state is warm and a clear fits. -/
theorem enumeration_agrees_iff (path : String) (fs : Tree FileName Bytes) (cs : List Call) :
    let s := exec (Store.new path fs) cs
    Enumerates s ∧ Clears s ↔ Warm s ∧ ClearFits s := by
  intro s
  rw [enumerates_iff, clears_iff]

/-- On an empty root, `keys` of a store that was just opened fails. -/
theorem keys_fails_when_opened :
    ¬∀ (path : String) (fs : Tree FileName Bytes), fs.readDir (parsePath path) = .ok [] → ∀ (cs : List Call)
      (clientId serverUri : String), let s := exec (Store.new path fs) (cs ++ [.openStore clientId serverUri])
      Enumerates s ∧ Clears s := by
  intro h
  obtain ⟨⟨ks, hks, -⟩, -⟩ := h "/root" (oneDirectory ⟨"root", by decide⟩) (by decide) [] "client" "server"
  have hfail : (exec (Store.new "/root" (oneDirectory ⟨"root", by decide⟩)) [.openStore "client" "server"]).keys.1 =
      .error .notFound := by decide
  rw [List.nil_append, hfail] at hks
  cases hks

end TokioMqtt.Fs
