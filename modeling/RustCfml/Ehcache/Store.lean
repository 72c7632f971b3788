import RustCfml.Lib.Lowercase

/-!
# The EhCache shim

A cache manager over one directory: heap caches hold values by reference, off-heap caches hold them
serialised, and a disk cache writes one file per entry under a directory of its own, which a
persistent one reads back when it is created again. The process may end at any moment between two
calls: the manager and its caches are gone then, and **what is left are the files and nothing
else; the counter that numbers them starts again at one.**
-/

namespace RustCfml.Ehcache

/-- A file of the manager's directory: the directory of the cache below it (empty for the manager's
own) and the number that is the file's name. -/
structure Path where
  dir : String
  id : Nat
deriving DecidableEq

/-- What a file holds of an entry. -/
structure DiskEntry (B : Type) where
  k : String
  c : Nat
  v : B

abbrev Files (B : Type) := List (Path × DiskEntry B)

namespace Files

variable {B : Type}

def read (files : Files B) (p : Path) : Option (DiskEntry B) := files.lookup p

def remove (files : Files B) (p : Path) : Files B := files.filter fun f => f.1 ≠ p

def write (files : Files B) (p : Path) (d : DiskEntry B) : Files B := (p, d) :: files.remove p

/-- All files of a directory; of the manager's own, all there are. -/
def removeDirAll (files : Files B) (dir : String) : Files B :=
  files.filter fun f => !(dir = "" || f.1.dir = dir)

end Files

inductive ValueClass where
  | any
  | struct
  | array
  | query
  | str
deriving DecidableEq

inductive Kind where
  | struct
  | array
  | query
  | string
  | other
deriving DecidableEq

structure Platform (V B : Type) where
  kind : V → Kind
  checkSerialisable : V → Except String Unit
  encode : V → Except String B
  decode : B → Option V
  heapBytes : V → Nat
  length : B → Nat
  fileLength : DiskEntry B → Nat
  /-- The order a directory is listed in. -/
  readDir : Files B → Files B
  readDir_perm : ∀ files, (readDir files).Perm files
  tables : Lowercase.CaseTables

variable {V B : Type}

def classOk (vc : ValueClass) (k : Kind) : Bool :=
  match vc with
  | .any => true
  | .struct => k = .struct
  | .array => k = .array
  | .query => k = .query
  | .str => k = .string

def valueClassName : ValueClass → String
  | .any => "java.lang.Object"
  | .struct => "lucee.runtime.type.Struct"
  | .array => "lucee.runtime.type.Array"
  | .query => "lucee.runtime.type.Query"
  | .str => "java.lang.String"

/-! ## Caches -/

inductive Expiry where
  | never
  | ttl (mins : Nat)
  | tti (mins : Nat)

/-- Where a cache keeps its values, with the limits there. -/
inductive Tier where
  | heap (maxEntries maxBytes : Nat)
  | offHeap (maxBytes : Nat)
  | disk (maxBytes : Nat) (dir : String) (persistent : Bool)
deriving DecidableEq

/-- A value in memory, its bytes, or the path of its file. -/
inductive Stored (V B : Type) where
  | live (v : V)
  | bytes (b : B)
  | file (p : Path)
deriving DecidableEq

structure Entry (V B : Type) where
  stored : Stored V B
  size : Nat
  createdMs : Nat
  accessedMs : Nat

/-- The entries stand in the order of their last use, the oldest first. -/
structure Cache (V B : Type) where
  tier : Tier
  expiry : Expiry
  valueClass : ValueClass
  entries : List (String × Entry V B)
  bytes : Nat

def u64 (n : Nat) : Nat := n % 2 ^ 64

/-- Any character that is not a letter, a digit, `-` or `_` becomes a `_`. -/
def cacheDir (name : String) : String :=
  .ofList (name.toList.map fun c => if c.isAlphanum || c = '_' || c = '-' then c else '_')

/-- The configuration, with the numbers as `cfg_num` reads them. -/
structure Config where
  valueClass : Option String := none
  storage : Option String := none
  persistent : Bool := false
  maxObjects : Nat := 0
  maxSizeInMb : Nat := 0
  objectDefaultLastAccessTimeout : Nat := 0
  objectDefaultTimeout : Nat := 0
  useLastAccessTimeouts : Bool := false

section

variable (P : Platform V B)

def Config.storageName (cfg : Config) : String :=
  (cfg.storage.map (Lowercase.lowerString P.tables)).getD ""

def parseValueClass (cfg : Config) : Except String ValueClass :=
  match cfg.valueClass.map (Lowercase.lowerString P.tables) with
  | none => .ok .any
  | some text =>
    if text = "" ∨ text = "java.lang.object" then .ok .any
    else if text = "struct" ∨ text = "lucee.runtime.type.struct" then .ok .struct
    else if text = "array" ∨ text = "lucee.runtime.type.array" then .ok .array
    else if text = "query" ∨ text = "lucee.runtime.type.query" then .ok .query
    else if text = "java.lang.string" ∨ text = "string" then .ok .str
    else .error text

def buildTier (name : String) (cfg : Config) : Tier :=
  let mb := u64 (cfg.maxSizeInMb * 1024 * 1024)
  if cfg.storageName P = "offheap" then .offHeap mb
  else if cfg.storageName P = "disk" then .disk mb (cacheDir name) cfg.persistent
  else .heap cfg.maxObjects mb

def buildCache (name : String) (cfg : Config) : Except String (Cache V B) := do
  let valueClass ← parseValueClass P cfg
  let lastAccess := cfg.objectDefaultLastAccessTimeout
  let timeout := cfg.objectDefaultTimeout
  let expiry :=
    if lastAccess + timeout = 0 then .never
    else if cfg.useLastAccessTimeouts then .tti (if lastAccess > 0 then lastAccess else timeout)
    else .ttl timeout
  return { tier := buildTier P name cfg, expiry, valueClass, entries := [], bytes := 0 }

end

/-- A cache and the files, as the methods of the cache see them. -/
structure Held (V B : Type) where
  cache : Cache V B
  files : Files B

namespace Held

variable (P : Platform V B)

def entry? (h : Held V B) (key : String) : Option (Entry V B) := h.cache.entries.lookup key

def expired (h : Held V B) (e : Entry V B) (now : Nat) : Bool :=
  match h.cache.expiry with
  | .never => false
  | .ttl mins => now - e.createdMs > u64 (mins * 60000)
  | .tti mins => now - e.accessedMs > u64 (mins * 60000)

/-- Only an entry on disk leaves something behind. -/
def dropStored (h : Held V B) (e : Entry V B) : Held V B where
  cache := { h.cache with bytes := h.cache.bytes - min e.size h.cache.bytes }
  files :=
    match e.stored with
    | .file p => h.files.remove p
    | _ => h.files

def setEntries (h : Held V B) (entries : List (String × Entry V B)) : Held V B :=
  { h with cache := { h.cache with entries } }

/-- `shift_remove`, and `drop_stored` of what was there. -/
def removeKey (h : Held V B) (key : String) : Held V B :=
  match h.entry? key with
  | none => h
  | some e => (h.setEntries (h.cache.entries.filter fun x => x.1 ≠ key)).dropStored e

def load (h : Held V B) (e : Entry V B) : Option V :=
  match e.stored with
  | .live v => some v
  | .bytes b => P.decode b
  | .file p => (h.files.read p).bind fun d => P.decode d.v

/-- The entry goes to the end, as the one used last. -/
def touch (h : Held V B) (key : String) (e : Entry V B) (now : Nat) : Held V B :=
  h.setEntries ((h.cache.entries.filter fun x => x.1 ≠ key) ++
    [(key, { e with accessedMs := now })])

/-- An entry that has run out is dropped. -/
def get (h : Held V B) (key : String) (now : Nat) : Held V B × Option V :=
  match h.entry? key with
  | none => (h, none)
  | some e =>
    if h.expired e now then (h.removeKey key, none)
    else
      let h := h.touch key e now
      match h.load P e with
      | some v => (h, some v)
      -- an unreadable file counts as absent
      | none => (h.removeKey key, none)

def contains (h : Held V B) (key : String) (now : Nat) : Held V B × Bool :=
  match h.entry? key with
  | some e => if h.expired e now then (h.removeKey key, false) else (h, true)
  | none => (h, false)

def overCapacity (h : Held V B) : Bool :=
  let (maxEntries, maxBytes) :=
    match h.cache.tier with
    | .heap maxEntries maxBytes => (maxEntries, maxBytes)
    | .offHeap maxBytes => (0, maxBytes)
    | .disk maxBytes _ _ => (0, maxBytes)
  (maxEntries > 0 && h.cache.entries.length > maxEntries) ||
    (maxBytes > 0 && h.cache.bytes > maxBytes && h.cache.entries.length > 1)

/-- The loop of `enforce_capacity`: each round takes the oldest entry out, so there are at most as
many rounds as entries. -/
def evict : Nat → Held V B → Held V B
  | 0, h => h
  | n + 1, h =>
    if h.overCapacity then
      match h.cache.entries with
      | [] => h
      | (key, _) :: _ => evict n (h.removeKey key)
    else h

/-- The least recently used go first. -/
def enforceCapacity (h : Held V B) : Held V B := evict h.cache.entries.length h

def append (h : Held V B) (key : String) (e : Entry V B) : Held V B where
  cache := { h.cache with
    entries := h.cache.entries ++ [(key, e)]
    bytes := h.cache.bytes + e.size }
  files := h.files

/-- On disk under the next number. -/
def store (h : Held V B) (nextId : Nat) (key : String) (value : V) (now : Nat) :
    Except String (Held V B × Nat × Stored V B × Nat) :=
  match h.cache.tier with
  | .heap _ _ => .ok (h, nextId, .live value, P.heapBytes value)
  | .offHeap _ => do
    P.checkSerialisable value
    let b ← P.encode value
    return (h, nextId, .bytes b, P.length b)
  | .disk _ dir _ => do
    P.checkSerialisable value
    let b ← P.encode value
    let d : DiskEntry B := ⟨key, now, b⟩
    let path : Path := ⟨dir, nextId⟩
    return ({ h with files := h.files.write path d }, nextId + 1, .file path, P.fileLength d)

def put (h : Held V B) (nextId : Nat) (key : String) (value : V) (now : Nat) :
    Except String (Held V B × Nat) := do
  if !classOk h.cache.valueClass (P.kind value) then
    throw ("Invalid value type, expected : " ++ valueClassName h.cache.valueClass)
  let (h, nextId, stored, size) ← h.store P nextId key value now
  return (((h.removeKey key).append key ⟨stored, size, now, now⟩).enforceCapacity, nextId)

def clear (h : Held V B) : Held V B :=
  let h := h.cache.entries.foldl (fun h x => h.removeKey x.1) h
  { h with cache := { h.cache with bytes := 0 } }

def liveKeys (h : Held V B) (now : Nat) : Held V B × List String :=
  let dead := (h.cache.entries.filter fun x => h.expired x.2 now).map Prod.fst
  let h := dead.foldl removeKey h
  (h, h.cache.entries.map Prod.fst)

def insertEntry (entries : List (String × Entry V B)) (key : String) (e : Entry V B) :
    List (String × Entry V B) :=
  if (entries.lookup key).isSome then entries.map fun x => if x.1 = key then (key, e) else x
  else entries ++ [(key, e)]

def enter (h : Held V B) (found : Path × DiskEntry B) : Held V B :=
  let e : Entry V B := ⟨.file found.1, P.fileLength found.2, found.2.c, found.2.c⟩
  let old := h.entry? found.2.k
  let h' : Held V B := { h with cache := { h.cache with
    entries := insertEntry h.cache.entries found.2.k e
    bytes := h.cache.bytes + e.size } }
  match old with
  | none => h'
  | some e => h'.dropStored e

/-- What a persistent cache finds in its directory. -/
def reloadFromDisk (h : Held V B) : Held V B :=
  match h.cache.tier with
  | .disk _ dir _ =>
    let listed := P.readDir (h.files.filter fun f => f.1.dir = dir)
    let unreadable := listed.filter fun f => (P.decode f.2.v).isNone
    let found := listed.filter fun f => (P.decode f.2.v).isSome
    let h := { h with files := unreadable.foldl (fun files f => files.remove f.1) h.files }
    let found := found.mergeSort fun a b => a.2.c ≤ b.2.c
    (found.foldl (enter P) h).enforceCapacity
  | _ => h

end Held

structure Manager (V B : Type) where
  available : Bool
  caches : List (String × Cache V B)

structure State (V B : Type) where
  nextId : Nat
  manager : Option (Manager V B)
  files : Files B

/-- The calls of an application, and the end of the process. -/
inductive Op (V : Type) where
  | init
  | close
  | createCache (name : String) (cfg : Config)
  | get (name key : String) (now : Nat)
  | put (name key : String) (value : V) (now : Nat)
  | containsKey (name key : String) (now : Nat)
  | remove (name key : String)
  | clear (name : String)
  /-- An iterator, or the known statistics. -/
  | keys (name : String) (now : Nat)
  /-- A number is drawn elsewhere in the process, by another manager or its caches. -/
  | drawId
  | restart

inductive Reply (V : Type) where
  | null
  | value (v : V)
  | bool (b : Bool)
  | keys (ks : List String)
  | error (message : String)
deriving DecidableEq

namespace State

variable (P : Platform V B)

def cache? (s : State V B) (name : String) : Option (Cache V B) :=
  s.manager.bind fun m => m.caches.lookup name

def setCache (m : Manager V B) (name : String) (c : Cache V B) : Manager V B :=
  { m with caches := m.caches.map fun x => if x.1 = name then (name, c) else x }

def withCache (s : State V B) (name : String)
    (f : Held V B → Except String (Held V B × Nat × Reply V)) : State V B × Reply V :=
  match s.manager with
  | none => (s, .error "CbEhCacheService used before init()")
  | some m =>
    match m.caches.lookup name with
    | none => (s, .error ("State is UNINITIALIZED: cache '" ++ name ++ "' is closed"))
    | some c =>
      match f ⟨c, s.files⟩ with
      | .error message => (s, .error message)
      | .ok (h, nextId, reply) =>
        ({ nextId, manager := some (setCache m name h.cache), files := h.files }, reply)

def init (s : State V B) : State V B × Reply V :=
  match s.manager with
  | none => ({ s with nextId := s.nextId + 1, manager := some ⟨true, []⟩ }, .null)
  | some m =>
    if m.available then (s, .error "State is AVAILABLE: the cache manager is already initialised")
    else ({ s with manager := some { m with available := true } }, .null)

/-- A closed manager has no caches; what a disk cache that is not persistent has written goes. -/
def close (s : State V B) : State V B × Reply V :=
  match s.manager with
  | none => (s, .error "CbEhCacheService used before init()")
  | some m =>
    let files := m.caches.foldl (fun files x =>
      match x.2.tier with
      | .disk _ dir false => files.removeDirAll dir
      | _ => files) s.files
    ({ s with manager := some ⟨false, []⟩, files }, .null)

/-- A cache that is not persistent empties its directory. -/
def openCache (c : Cache V B) (files : Files B) : Held V B :=
  match c.tier with
  | .disk _ dir persistent =>
    if persistent then (Held.mk c files).reloadFromDisk P else ⟨c, files.removeDirAll dir⟩
  | _ => ⟨c, files⟩

def createCache (s : State V B) (name : String) (cfg : Config) : State V B × Reply V :=
  match s.manager with
  | none => (s, .error "CbEhCacheService used before init()")
  | some m =>
    if !m.available then (s, .error "State is UNINITIALIZED")
    else if (m.caches.lookup name).isSome then (s, .error ("Cache '" ++ name ++ "' already exists"))
    else
      match buildCache P name cfg with
      | .error message => (s, .error message)
      | .ok c =>
        let h := openCache P c s.files
        ({ s with
            manager := some { m with caches := m.caches ++ [(name, h.cache)] }
            files := h.files }, .null)

def step (s : State V B) : Op V → State V B × Reply V
  | .init => s.init
  | .close => s.close
  | .createCache name cfg => s.createCache P name cfg
  | .get name key now => s.withCache name fun h =>
    let r := h.get P key now
    .ok (r.1, s.nextId, match r.2 with
      | some v => .value v
      | none => .null)
  | .put name key value now => s.withCache name fun h => do
    let (h, nextId) ← h.put P s.nextId key value now
    return (h, nextId, .null)
  | .containsKey name key now => s.withCache name fun h =>
    let r := h.contains key now
    .ok (r.1, s.nextId, .bool r.2)
  | .remove name key => s.withCache name fun h => .ok (h.removeKey key, s.nextId, .null)
  | .clear name => s.withCache name fun h => .ok (h.clear, s.nextId, .null)
  | .keys name now => s.withCache name fun h =>
    let r := h.liveKeys now
    .ok (r.1, s.nextId, .keys r.2)
  | .drawId => ({ s with nextId := s.nextId + 1 }, .null)
  -- the process ends and another one starts: the files are what it finds
  | .restart => ({ nextId := 1, manager := none, files := s.files }, .null)

end State

end RustCfml.Ehcache
