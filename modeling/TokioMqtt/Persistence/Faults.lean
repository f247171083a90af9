/-
`put` and `remove` on a file system whose calls may fail. Both change the cache before the files and
leave it changed when a call on a file fails: a `put` that failed then answers as one that did not,
and a `remove` that failed answers with what is on disk. They are atomic when the disk holds the
very packet that is put or removed.
-/
import TokioMqtt.Persistence.Cells

namespace TokioMqtt.Fs

open Proto FileTree

/-! ## Calls on files that fail -/

/-- How the calls on files of a `put` go. -/
inductive PutIo where
  | works
  /-- `File::create` fails and leaves the files as they are. -/
  | createFails
  /-- `write_all` fails after that many bytes. -/
  | writeFails (written : Nat)
  deriving DecidableEq

namespace Store

/-- `put`, whose calls on files may fail where the file tree would let them succeed. -/
def putWith (io : PutIo) (key : FileName) (packet : Bytes) (s : Store) : Except IoErrorKind Unit × Store :=
  match s.self.cache.lookup key with
  | some _ => (.error .alreadyExists, s)
  | none =>
    let s := s.cached key packet
    match io with
    | .createFails => (.error .other, s)
    | .writeFails written =>
      match s.fs.create (s.pathOf key) (packet.take written) with
      | .error f => (.error (faultKind f), s)
      | .ok fs => (.error .other, { s with fs })
    | .works =>
      match s.fs.create (s.pathOf key) packet with
      | .error f => (.error (faultKind f), s)
      | .ok fs => (.ok (), { s with fs })

/-- `remove`, whose `file::delete` fails and leaves the file when `deleteFails`. -/
def removeWith (deleteFails : Bool) (key : FileName) (s : Store) : Except IoErrorKind Unit × Store :=
  match s.self.cache.lookup key with
  | none => (.error .alreadyExists, s)
  | some _ =>
    let s := s.uncached key
    if deleteFails then (.error .other, s)
    else
      match s.fs.removeFile (s.pathOf key) with
      | .error _ => (.error .other, s)
      | .ok fs => (.ok (), { s with fs })

/-- Without a failure of its own a `put` is the `put` of the file tree. -/
theorem putWith_works : putWith .works = put := rfl

theorem removeWith_works : removeWith false = remove := rfl

end Store

/-! ## Atomicity -/

/-- Every key reads the same. -/
def SameReads (s s' : Store) : Prop :=
  ∀ k, ((KeyCall.get k).run s').1 = ((KeyCall.get k).run s).1 ∧
    ((KeyCall.contains k).run s').1 = ((KeyCall.contains k).run s).1

/-- The store says that it has the key. -/
def Present (s : Store) (key : FileName) : Prop := ((KeyCall.contains key).run s).1 = .ok (.found (some ()))

/-- A `put` that fails has not happened, and can be tried again unless the key was there. -/
structure AtomicPut (io : PutIo) (key : FileName) (packet : Bytes) (s : Store) : Prop where
  unchanged : ∀ e s', s.putWith io key packet = (.error e, s') → SameReads s s'
  retry : ∀ e s', s.putWith io key packet = (.error e, s') →
    ∀ io', (s'.putWith io' key packet).1 = .error .alreadyExists → Present s key

/-- A `remove` that fails has not happened. -/
def AtomicRemove (deleteFails : Bool) (key : FileName) (s : Store) : Prop :=
  ∀ e s', s.removeWith deleteFails key = (.error e, s') → SameReads s s'

/-- The file of the key can be made and written. -/
def CanPut (io : PutIo) (key : FileName) (s : Store) : Prop :=
  io = .works ∧ ∃ o, s.disk key = .ok o ∧ o ≠ some .dir

/-- The file of the key can be deleted. -/
def CanRemove (deleteFails : Bool) (key : FileName) (s : Store) : Prop :=
  deleteFails = false ∧ ∃ b, s.disk key = .ok (some (.file b))

open Store

/-! ## Reading -/

theorem get_answer (k : FileName) (s : Store) : ((KeyCall.get k).run s).1 = (Cell.get (s.cell k)).1 :=
  (run_refines (.get k) s).answer

theorem contains_answer (k : FileName) (s : Store) : ((KeyCall.contains k).run s).1 = (Cell.contains (s.cell k)).1 :=
  (run_refines (.contains k) s).answer

theorem SameReads.refl (s : Store) : SameReads s s := fun _ => ⟨rfl, rfl⟩

/-- A packet in memory and the same packet on disk cannot be told apart. -/
theorem get_eq_packet {c : Cell} {b : Bytes} : (Cell.get c).1 = .ok (.packet b) ↔
    c.memory = some b ∨ c.memory = none ∧ c.disk = .ok (some (.file b)) := by
  obtain ⟨_ | m, _ | _ | _ | d⟩ := c <;> simp [Cell.get]

theorem contains_of_get {c : Cell} {b : Bytes} (h : (Cell.get c).1 = .ok (.packet b)) :
    (Cell.contains c).1 = .ok (.found (some ())) := by
  obtain ⟨_ | m, _ | _ | _ | d⟩ := c <;> simp_all [Cell.get, Cell.contains]

/-- One cell has changed, and its packet is the same. -/
theorem sameReads_of_packet {s s' : Store} {key : FileName} {b : Bytes}
    (hothers : ∀ k, k ≠ key → s'.cell k = s.cell k) (hbefore : (Cell.get (s.cell key)).1 = .ok (.packet b))
    (hafter : (Cell.get (s'.cell key)).1 = .ok (.packet b)) : SameReads s s' := by
  intro k
  rw [get_answer, get_answer, contains_answer, contains_answer]
  by_cases hk : k = key
  · rw [hk, hafter, hbefore, contains_of_get hafter, contains_of_get hbefore]
    exact ⟨rfl, rfl⟩
  · rw [hothers k hk]
    exact ⟨rfl, rfl⟩

/-! ## Failing calls -/

section
variable {io : PutIo} {deleteFails : Bool} {key : FileName} {packet : Bytes} {s : Store}

theorem putWith_refused {b : Bytes} (hm : s.memory key = some b) :
    s.putWith io key packet = (.error .alreadyExists, s) := by
  have hlookup : s.self.cache.lookup key = some b := hm
  simp only [putWith, hlookup]

/-- The file of a key is made unless its directory is missing or a directory has its name; making it
leaves the other keys' files. -/
theorem create_cases (s : Store) (key : FileName) (b : Bytes) :
    (∃ f, s.fs.create (s.pathOf key) b = .error f ∧ ¬∃ o, s.disk key = .ok o ∧ o ≠ some .dir) ∨
      ∃ fs, s.fs.create (s.pathOf key) b = .ok fs ∧ (∃ o, s.disk key = .ok o ∧ o ≠ some .dir) ∧
        ∀ k, k ≠ key → fs.under s.packetDir k = s.disk k := by
  rcases hd : s.disk key with f | o
  · exact .inl ⟨f, Tree.create_error hd b, fun ⟨o, ho, _⟩ => by cases ho⟩
  · obtain ⟨l, hw, hn⟩ := Tree.under_ok hd
    by_cases ho : o = some .dir
    · subst ho
      exact .inl ⟨_, Tree.create_dir hd b, fun ⟨o, ho, hne⟩ => by cases ho; exact hne rfl⟩
    · have hn' : s.fs.node? (l ++ [key]) ≠ some .dir := by rw [hn]; exact ho
      exact .inr ⟨_, Tree.create_ok hw hn' b, ⟨o, rfl, ho⟩, (Tree.under_setFile hw hn' b).2⟩

theorem putWith_ok (hm : s.memory key = none) (hio : CanPut io key s) :
    ∃ s', s.putWith io key packet = (.ok (), s') := by
  have hlookup : s.self.cache.lookup key = none := hm
  obtain ⟨rfl, hdisk⟩ := hio
  simp only [putWith, hlookup]
  rcases create_cases (s.cached key packet) key packet with ⟨f, -, hno⟩ | ⟨fs, hfs, -⟩
  · exact absurd hdisk hno
  · rw [hfs]
    exact ⟨_, rfl⟩

theorem cell_cached_ne {k : FileName} (hk : k ≠ key) : (s.cached key packet).cell k = s.cell k := by
  simp [cell, hk]

theorem cell_written {fs : Tree FileName Bytes} (hfs : ∀ k, k ≠ key → fs.under s.packetDir k = s.disk k) {k : FileName}
    (hk : k ≠ key) : ({ s.cached key packet with fs } : Store).cell k = s.cell k := by
  have hmem : ({ s.cached key packet with fs } : Store).memory k = s.memory k := by simp [hk]
  have hdisk : ({ s.cached key packet with fs } : Store).disk k = s.disk k := hfs k hk
  rw [cell, cell, hmem, hdisk]

/-- A `put` that fails leaves the packet in memory. -/
theorem putWith_fails (hm : s.memory key = none) (hio : ¬CanPut io key s) :
    ∃ e s', s.putWith io key packet = (.error e, s') ∧ s'.memory key = some packet ∧
      ∀ k, k ≠ key → s'.cell k = s.cell k := by
  have hlookup : s.self.cache.lookup key = none := hm
  have hself : (s.cached key packet).memory key = some packet := by simp
  simp only [putWith, hlookup]
  cases io with
  | createFails => exact ⟨_, _, rfl, hself, fun k => cell_cached_ne⟩
  | writeFails written =>
    rcases create_cases (s.cached key packet) key (packet.take written) with ⟨f, hf, -⟩ | ⟨fs, hfs, -, hothers⟩
    · simp only [hf]
      exact ⟨_, _, rfl, hself, fun k => cell_cached_ne⟩
    · simp only [hfs]
      exact ⟨_, _, rfl, hself, fun k => cell_written (s := s) hothers⟩
  | works =>
    rcases create_cases (s.cached key packet) key packet with ⟨f, hf, -⟩ | ⟨fs, hfs, hdisk, -⟩
    · simp only [hf]
      exact ⟨_, _, rfl, hself, fun k => cell_cached_ne⟩
    · exact absurd ⟨rfl, hdisk⟩ hio

theorem removeWith_refused (hm : s.memory key = none) :
    s.removeWith deleteFails key = (.error .alreadyExists, s) := by
  have hlookup : s.self.cache.lookup key = none := hm
  simp only [removeWith, hlookup]

theorem removeWith_ok {b : Bytes} (hm : s.memory key = some b) (hio : CanRemove deleteFails key s) :
    ∃ s', s.removeWith deleteFails key = (.ok (), s') := by
  have hlookup : s.self.cache.lookup key = some b := hm
  obtain ⟨rfl, d, hd⟩ := hio
  obtain ⟨l, hw, hn⟩ := Tree.under_ok hd
  have hdel : (s.uncached key).fs.removeFile ((s.uncached key).pathOf key) = .ok (s.fs.eraseNode (l ++ [key])) :=
    Tree.removeFile_ok hw hn
  simp only [removeWith, hlookup, hdel]
  exact ⟨_, rfl⟩

/-- A `remove` that fails leaves the file, if there is one, and nothing in memory. -/
theorem removeWith_fails {b : Bytes} (hm : s.memory key = some b) (hio : ¬CanRemove deleteFails key s) :
    s.removeWith deleteFails key = (.error .other, s.uncached key) := by
  have hlookup : s.self.cache.lookup key = some b := hm
  simp only [removeWith, hlookup]
  cases deleteFails with
  | true => rfl
  | false =>
    have hdel : ∃ f, (s.uncached key).fs.removeFile ((s.uncached key).pathOf key) = .error f := by
      rcases hd : s.disk key with f | o
      · exact ⟨f, Tree.removeFile_error hd⟩
      · refine Tree.removeFile_other hd fun d hf => hio ⟨rfl, d, ?_⟩
        rw [hd, hf]
    obtain ⟨f, hf⟩ := hdel
    simp only [hf]
    rfl

/-! ## When the calls are atomic -/

theorem atomicPut_iff : AtomicPut io key packet s ↔
    s.memory key ≠ none ∨ CanPut io key s ∨ s.disk key = .ok (some (.file packet)) := by
  cases hm : s.memory key with
  | some b =>
    refine iff_of_true ⟨fun e s' h => ?_, fun e s' h io' _ => ?_⟩ (.inl (by simp))
    · rw [putWith_refused hm] at h
      cases h
      exact SameReads.refl s
    · unfold Present
      rw [contains_answer, cell_eq hm rfl]
      rfl
  | none =>
    by_cases hio : CanPut io key s
    · obtain ⟨s', hok⟩ : ∃ s', s.putWith io key packet = (.ok (), s') := putWith_ok hm hio
      refine iff_of_true ⟨fun e s' h => ?_, fun e s' h => ?_⟩ (.inr (.inl hio)) <;>
      · rw [hok] at h
        cases h
    · obtain ⟨e, s', hfail, hmem, hothers⟩ : ∃ e s', s.putWith io key packet = (.error e, s') ∧
          s'.memory key = some packet ∧ ∀ k, k ≠ key → s'.cell k = s.cell k := putWith_fails hm hio
      have hget : (Cell.get (s'.cell key)).1 = .ok (.packet packet) := get_eq_packet.2 (.inl hmem)
      constructor
      · intro h
        have hsame := ((h.unchanged e s' hfail) key).1
        rw [get_answer, get_answer, hget] at hsame
        rcases get_eq_packet.1 hsame.symm with hmem' | ⟨-, hdisk⟩
        · exact absurd (hm.symm.trans hmem') nofun
        · exact .inr (.inr hdisk)
      · rintro (h | h | hdisk)
        · exact absurd rfl h
        · exact absurd h hio
        · have hbefore : (Cell.get (s.cell key)).1 = .ok (.packet packet) := get_eq_packet.2 (.inr ⟨hm, hdisk⟩)
          refine ⟨fun e' s'' h => ?_, fun _ _ _ _ _ => ?_⟩
          · rw [hfail] at h
            cases h
            exact sameReads_of_packet hothers hbefore hget
          · unfold Present
            rw [contains_answer]
            exact contains_of_get hbefore

theorem atomicRemove_iff : AtomicRemove deleteFails key s ↔
    s.memory key = none ∨ CanRemove deleteFails key s ∨
      ∃ packet, s.memory key = some packet ∧ s.disk key = .ok (some (.file packet)) := by
  cases hm : s.memory key with
  | none =>
    refine iff_of_true (fun e s' h => ?_) (.inl rfl)
    rw [removeWith_refused hm] at h
    cases h
    exact SameReads.refl s
  | some packet =>
    by_cases hio : CanRemove deleteFails key s
    · obtain ⟨s', hok⟩ := removeWith_ok hm hio
      refine iff_of_true (fun e s' h => ?_) (.inr (.inl hio))
      rw [hok] at h
      cases h
    · have hfail := removeWith_fails hm hio
      have hbefore : (Cell.get (s.cell key)).1 = .ok (.packet packet) := get_eq_packet.2 (.inl hm)
      have hmem : (s.uncached key).memory key = none := by simp
      constructor
      · intro h
        have hsame := ((h _ _ hfail) key).1
        rw [get_answer, get_answer, hbefore] at hsame
        rcases get_eq_packet.1 hsame with hmem' | ⟨-, hdisk⟩
        · exact absurd (hmem.symm.trans hmem') nofun
        · exact .inr (.inr ⟨packet, rfl, hdisk⟩)
      · rintro (h | h | ⟨b, hb, hdisk⟩)
        · cases h
        · exact absurd h hio
        · cases hb
          have hget : (Cell.get ((s.uncached key).cell key)).1 = .ok (.packet packet) :=
            get_eq_packet.2 (.inr ⟨hmem, hdisk⟩)
          intro e s' h
          rw [hfail] at h
          cases h
          refine sameReads_of_packet (fun k hk => ?_) hbefore hget
          simp [cell, hk]

end

end TokioMqtt.Fs
