/-
The store that keeps each packet in a file of its own and the packets it has met in memory. Where a call
looks, in memory or on disk, is the code's; that calls on files succeed when what they need is there is
the file tree's. The stores are on a POSIX system, and paths are UTF-8: the constructor refuses others.
-/
import TokioMqtt.Lib.FileTree
import TokioMqtt.Proto.Types

namespace TokioMqtt.Fs

open Proto FileTree

/-! ## Names -/

/-- A name that a file can have. -/
structure FileName where
  str : String
  plain : str.toList ≠ [] ∧ str.toList ≠ ['.'] ∧ str.toList ≠ ['.', '.'] ∧ '/' ∉ str.toList
  deriving DecidableEq

/-- The component between two slashes; nothing for an empty one and for `.`. -/
def component (tok : List Char) : Option (Comp FileName) :=
  if tok = ['.', '.'] then some .parent
  else if h : tok ≠ [] ∧ tok ≠ ['.'] ∧ tok ≠ ['.', '.'] ∧ '/' ∉ tok then
    some (.name ⟨String.ofList tok, by rw [String.toList_ofList]; exact h⟩)
  else none

/-- The path a string is read as. -/
def parsePath (s : String) : Path FileName :=
  ⟨s.toList.head? = some '/', (s.toList.splitOn '/').filterMap component⟩

theorem splitOn_plain {cs : List Char} (h : '/' ∉ cs) : cs.splitOn '/' = [cs] :=
  List.splitOn_eq_singleton h

/-- A plain name is read as itself. -/
theorem parsePath_plain (n : FileName) : parsePath n.str = ⟨false, [.name n]⟩ := by
  obtain ⟨s, h0, h1, h2, h3⟩ := n
  have hhead : s.toList.head? ≠ some '/' := fun hh => h3 (List.mem_of_mem_head? hh)
  have hcomp : component s.toList = some (.name ⟨s, h0, h1, h2, h3⟩) := by
    unfold component
    rw [if_neg h2, dif_pos ⟨h0, h1, h2, h3⟩]
    simp
  unfold parsePath
  rw [splitOn_plain h3]
  simp [hhead, hcomp]

/-! ## The store -/

/-- The kinds of `io::Error` that are met. -/
inductive IoErrorKind where
  | notFound
  | alreadyExists
  | other
  deriving DecidableEq

def faultKind : Fault → IoErrorKind
  | .missing => .notFound
  | .wrongKind => .other

@[ext] structure FsPersistence where
  rootDir : Path FileName
  currentStore : Path FileName
  cache : AList (fun _ : FileName => Bytes)

/-- The store and the files it works on. -/
structure Store where
  self : FsPersistence
  fs : Tree FileName Bytes

namespace Store

/-- `FsPersistence::new`, once the root directory was made. -/
def new (path : String) (fs : Tree FileName Bytes) : Store := ⟨⟨parsePath path, .empty, ∅⟩, fs⟩

/-- `format!("{}@{}", client_id, server_uri)`. -/
def storeName (clientId serverUri : String) : String := clientId ++ "@" ++ serverUri

/-- `open`. -/
def openStore (clientId serverUri : String) (s : Store) : Store :=
  { s with self := { s.self with currentStore := s.self.rootDir.join (parsePath (storeName clientId serverUri)) } }

def close (s : Store) : Store := { s with self := { s.self with currentStore := .empty, cache := ∅ } }

/-- The file of a key. -/
def pathOf (s : Store) (key : FileName) : Path FileName := s.self.currentStore.withFileName key

def cached (s : Store) (key : FileName) (packet : Bytes) : Store :=
  { s with self := { s.self with cache := s.self.cache.insert key packet } }

def uncached (s : Store) (key : FileName) : Store :=
  { s with self := { s.self with cache := s.self.cache.erase key } }

def put (key : FileName) (packet : Bytes) (s : Store) : Except IoErrorKind Unit × Store :=
  match s.self.cache.lookup key with
  | some _ => (.error .alreadyExists, s)
  | none =>
    -- the cache keeps the packet also when its file cannot be made
    match s.fs.create (s.pathOf key) packet with
    | .error f => (.error (faultKind f), s.cached key packet)
    | .ok fs => (.ok (), { s.cached key packet with fs })

def contains (key : FileName) (s : Store) : Except IoErrorKind (Option Unit) × Store :=
  match s.self.cache.lookup key with
  | some _ => (.ok (some ()), s)
  | none =>
    if s.fs.exists (s.pathOf key) then
      match s.fs.read (s.pathOf key) with
      | .error f => (.error (faultKind f), s)
      | .ok buf => (.ok (some ()), s.cached key buf)
    else (.ok none, s)

def get (key : FileName) (s : Store) : Except IoErrorKind Bytes × Store :=
  match s.self.cache.lookup key with
  | some packet => (.ok packet, s)
  | none =>
    match s.fs.read (s.pathOf key) with
    | .error f => (.error (faultKind f), s)
    | .ok buf => (.ok buf, s.cached key buf)

/-- `remove`; `file::delete` is a removal of the file, whose errors are all mapped to one kind. -/
def remove (key : FileName) (s : Store) : Except IoErrorKind Unit × Store :=
  match s.self.cache.lookup key with
  | none => (.error .alreadyExists, s)
  | some _ =>
    match s.fs.removeFile (s.pathOf key) with
    | .error _ => (.error .other, s.uncached key)
    | .ok fs => (.ok (), { s.uncached key with fs })

/-- The second loop of `keys`: reads the files it collected into the cache. A path collected is known by the
name it ends in. -/
def loadAll : List FileName → Store → Except IoErrorKind Unit × Store
  | [], s => (.ok (), s)
  | key :: keys, s =>
    match s.fs.read (s.self.currentStore.push key) with
    | .error f => (.error (faultKind f), s)
    | .ok v => loadAll keys (s.cached key v)

/-- The files among the entries of the current store. -/
def filesAmong (s : Store) (entries : List FileName) : List FileName :=
  entries.filter fun e => s.fs.isFile (s.self.currentStore.push e)

def keys (s : Store) : Except IoErrorKind (List FileName) × Store :=
  if s.self.cache.keys.isEmpty then
    match s.fs.readDir s.self.currentStore with
    | .error f => (.error (faultKind f), s)
    | .ok entries =>
      match loadAll (s.filesAmong entries) s with
      | (.error e, s) => (.error e, s)
      | (.ok (), s) => (.ok s.self.cache.keys, s)
  else (.ok s.self.cache.keys, s)

/-- The loop of `clear` over the entries of the directory `store`. -/
def removeAll (store : Path FileName) : List FileName → Tree FileName Bytes →
    Except IoErrorKind Unit × Tree FileName Bytes
  | [], fs => (.ok (), fs)
  | e :: es, fs =>
    if fs.isFile (store.push e) then
      match fs.removeFile (store.push e) with
      | .error f => (.error (faultKind f), fs)
      | .ok fs => removeAll store es fs
    else removeAll store es fs

def clear (s : Store) : Except IoErrorKind Unit × Store :=
  let s := { s with self := { s.self with cache := ∅ } }
  match s.fs.readDir s.self.currentStore with
  | .error f => (.error (faultKind f), s)
  | .ok entries =>
    let (result, fs) := removeAll s.self.currentStore entries s.fs
    (result, { s with fs })

end Store

/-! ## Calls -/

/-- The calls on one key. -/
inductive KeyCall where
  | put (key : FileName) (packet : Bytes)
  | contains (key : FileName)
  | get (key : FileName)
  | remove (key : FileName)
  deriving DecidableEq

def KeyCall.key : KeyCall → FileName
  | .put key _ => key
  | .contains key => key
  | .get key => key
  | .remove key => key

/-- The calls on an open store. -/
inductive DataCall where
  | onKey (c : KeyCall)
  | keys
  | clear
  deriving DecidableEq

inductive Call where
  | openStore (clientId serverUri : String)
  | close
  | data (c : DataCall)
  deriving DecidableEq

/-- What a call returns on success. -/
inductive Answer where
  | done
  | found (o : Option Unit)
  | packet (b : Bytes)
  | keys (ks : List FileName)
  deriving DecidableEq

abbrev Result : Type := Except IoErrorKind Answer

def KeyCall.run (c : KeyCall) (s : Store) : Result × Store :=
  match c with
  | .put key packet => let (r, s) := s.put key packet; (r.map fun _ => .done, s)
  | .contains key => let (r, s) := s.contains key; (r.map .found, s)
  | .get key => let (r, s) := s.get key; (r.map .packet, s)
  | .remove key => let (r, s) := s.remove key; (r.map fun _ => .done, s)

def DataCall.run (c : DataCall) (s : Store) : Result × Store :=
  match c with
  | .onKey c => c.run s
  | .keys => let (r, s) := s.keys; (r.map .keys, s)
  | .clear => let (r, s) := s.clear; (r.map fun _ => .done, s)

def Call.run (c : Call) (s : Store) : Result × Store :=
  match c with
  | .openStore clientId serverUri => (.ok .done, s.openStore clientId serverUri)
  | .close => (.ok .done, s.close)
  | .data c => c.run s

/-- The store after a sequence of calls. -/
def exec (s : Store) (cs : List Call) : Store := cs.foldl (fun s c => (c.run s).2) s

/-- The file tree with one directory below its root. -/
def oneDirectory (name : FileName) : Tree FileName Bytes := ⟨AList.insert [name] .dir ∅, []⟩

end TokioMqtt.Fs
