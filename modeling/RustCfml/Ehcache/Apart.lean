import RustCfml.Ehcache.Store
import RustCfml.Lib.Assoc
import RustCfml.Lib.Fallible
import RustCfml.Lib.Run

/-!
# Entries stay apart

**All a cache does to its entries besides a put is to remove some of them** (`Keeps`), so expiry,
eviction, `remove`, `clear` and the iterator come down to one lemma (`keeps_removeKey`).
-/

namespace RustCfml.Ehcache

open StateMachine List Option

variable {V B : Type}

namespace Files

variable {files : Files B} {p q : Path}

lemma read_remove : (files.remove p).read q = if q = p then none else files.read q := by
  have h := Assoc.lookup_filter (l := files) (k := q) fun x => decide (x ≠ p)
  rw [read, remove, h]
  by_cases hq : q = p <;> simp [hq, read]

lemma read_write {d : DiskEntry B} :
    (files.write p d).read q = if q = p then some d else files.read q := by
  rw [read, write, lookup_cons]
  by_cases hq : q = p
  · simp [hq]
  · have hne : (q == p) = false := by simpa using hq
    rw [hne, if_neg hq]
    exact read_remove.trans (if_neg hq)

lemma read_removeDirAll {dir : String} :
    (files.removeDirAll dir).read q = if dir = "" ∨ q.dir = dir then none else files.read q := by
  have h := Assoc.lookup_filter (l := files) (k := q) fun x => !(dir = "" || x.dir = dir)
  rw [read, removeDirAll, h]
  by_cases hdir : dir = "" ∨ q.dir = dir
  · have hfalse : (!(decide (dir = "") || decide (q.dir = dir))) = false := by
      rcases hdir with h | h <;> simp [h]
    rw [hfalse, if_pos hdir]
    rfl
  · have htrue : (!(decide (dir = "") || decide (q.dir = dir))) = true := by simpa using hdir
    rw [htrue, if_neg hdir]
    rfl

end Files

/-! ## The entries of a cache by key -/

namespace Held

variable {h : Held V B} {k k' : String}

@[local simp] def stored? (h : Held V B) (k : String) : Option (Stored V B) :=
  (h.entry? k).map Entry.stored

lemma lookup_filter_ne (es : List (String × Entry V B)) :
    (es.filter fun x => x.1 ≠ k).lookup k' = if k' = k then none else es.lookup k' := by
  have hlookup := Assoc.lookup_filter (l := es) (k := k') fun x => decide (x ≠ k)
  rw [hlookup]
  by_cases hk : k' = k <;> simp [hk]

lemma stored?_removeKey : (h.removeKey k).stored? k' = if k' = k then none else h.stored? k' := by
  cases hentry : h.entry? k with
  | none =>
    rw [removeKey, hentry]
    by_cases hk : k' = k
    · rw [if_pos hk, hk, stored?, hentry]
      rfl
    · rw [if_neg hk]
  | some e =>
    rw [removeKey, hentry]
    show ((h.cache.entries.filter fun x => x.1 ≠ k).lookup k').map Entry.stored = _
    rw [lookup_filter_ne]
    by_cases hk : k' = k
    · rw [if_pos hk, if_pos hk]
      rfl
    · rw [if_neg hk, if_neg hk]
      rfl

lemma files_removeKey (h : Held V B) (k : String) : (h.removeKey k).files =
      match h.stored? k with
      | some (.file p) => h.files.remove p
      | _ => h.files := by
  cases hentry : h.entry? k with
  | none => simp [removeKey, hentry]
  | some e =>
    cases hstored : e.stored <;> simp [removeKey, hentry, dropStored, setEntries, hstored]

@[simp] lemma tier_removeKey : (h.removeKey k).cache.tier = h.cache.tier := by
  cases hentry : h.entry? k <;> simp [removeKey, hentry, dropStored, setEntries]

lemma stored?_append {e : Entry V B} (hfree : h.stored? k = none) :
    (h.append k e).stored? k' = if k' = k then some e.stored else h.stored? k' := by
  have hnone : h.entry? k = none := by simpa using hfree
  show ((h.cache.entries ++ [(k, e)]).lookup k').map Entry.stored = _
  rw [lookup_append, lookup_cons]
  by_cases hk : k' = k
  · subst hk
    rw [show h.cache.entries.lookup k' = none from hnone]
    simp
  · have hne : (k' == k) = false := by simpa using hk
    rw [hne, if_neg hk]
    simp [stored?, entry?]

lemma stored?_touch {e : Entry V B} {now : Nat} (hentry : h.entry? k = some e) :
    (h.touch k e now).stored? k' = h.stored? k' := by
  show (((h.cache.entries.filter fun x => x.1 ≠ k) ++ _).lookup k').map Entry.stored = _
  rw [lookup_append, lookup_filter_ne, lookup_cons]
  by_cases hk : k' = k
  · simp [hk, hentry]
  · have hne : (k' == k) = false := by simpa using hk
    simp [hk, hne, entry?]

section

variable (P : Platform V B) (f : Path × DiskEntry B)

lemma stored?_enter :
    (h.enter P f).stored? k' = if k' = f.2.k then some (.file f.1) else h.stored? k' := by
  have hentries : (h.enter P f).stored? k' = ((insertEntry h.cache.entries f.2.k
        ⟨.file f.1, P.fileLength f.2, f.2.c, f.2.c⟩).lookup k').map Entry.stored := by
    rw [enter]
    cases h.entry? f.2.k <;> rfl
  rw [hentries, insertEntry]
  split
  next hsome =>
    rw [Assoc.lookup_map_key]
    by_cases hk : k' = f.2.k
    · obtain ⟨e, he⟩ := isSome_iff_exists.1 hsome
      simp [hk, he]
    · simp [hk, entry?]
  next hnone =>
    have hfree : h.cache.entries.lookup f.2.k = none := not_isSome_iff_eq_none.1 hnone
    rw [lookup_append, lookup_cons]
    by_cases hk : k' = f.2.k
    · simp [hk, hfree]
    · have hne : (k' == f.2.k) = false := by simpa using hk
      simp [hk, hne, entry?]

lemma files_enter : (h.enter P f).files = (h.removeKey f.2.k).files := by
  rw [files_removeKey, enter]
  cases hentry : h.entry? f.2.k with
  | none => simp [hentry]
  | some e => cases hstored : e.stored <;> simp [hentry, dropStored, hstored]

@[simp] lemma tier_enter : (h.enter P f).cache.tier = h.cache.tier := by
  rw [enter]
  cases h.entry? f.2.k <;> rfl

end

end Held

/-- The program and the puts that succeeded, the last one first. -/
structure World (V B : Type) where
  state : State V B
  puts : List (String × String × V)

def lastPut (puts : List (String × String × V)) (name key : String) : Option V :=
  (puts.find? fun x => x.1 = name && x.2.1 = key).map fun x => x.2.2

@[local simp] lemma lastPut_cons (puts : List (String × String × V)) (name key name' key' : String)
    (v : V) :
    lastPut ((name, key, v) :: puts) name' key' =
      if name = name' ∧ key = key' then some v else lastPut puts name' key' := by
  rw [lastPut, find?_cons]
  by_cases h : name = name' ∧ key = key'
  · simp [h]
  · have hfalse : (decide (name = name') && decide (key = key')) = false := by simpa using h
    simp only [hfalse, if_neg h]
    rfl

/-- The serialised form of the value, if it has one, is read as the value. -/
def Platform.Carries (P : Platform V B) (v : V) : Prop :=
  ∀ b, P.encode v = .ok b → P.decode b = some v

/-! ## The invariant of one cache -/

section

variable (P : Platform V B) (puts : List (String × String × V)) (names : Set String) (n : String)

/-- What is stored under a key is the value put there last, or a file that names the key. -/
def StoredOk (X : Set Path) (tier : Tier) (files : Files B) (k : String) : Stored V B → Prop
  | .live v => (∃ a b, tier = .heap a b) ∧ lastPut puts n k = some v
  | .bytes b => (∃ a, tier = .offHeap a) ∧ ∃ v, lastPut puts n k = some v ∧ P.decode b = some v
  | .file p => (∃ a d q, tier = .disk a d q) ∧ n ∈ names ∧ p.dir = cacheDir n ∧ p ∉ X ∧
    ∃ d, files.read p = some d ∧ d.k = k

/-- The cache of this name; the files in `X` have no entry yet. -/
structure Backed (X : Set Path) (h : Held V B) : Prop where
  disk : ∀ a dir q, h.cache.tier = .disk a dir q → dir = cacheDir n ∧ n ∈ names
  stored : ∀ k s, h.stored? k = some s → StoredOk P puts names n X h.cache.tier h.files k s
  entered : n ∈ names → ∀ p d, h.files.read p = some d → p.dir = cacheDir n → p ∉ X →
    h.stored? d.k = some (.file p)

/-- The files of the cache's directory hold the values put last. -/
def FilesOk (X : Set Path) (files : Files B) : Prop :=
  ∀ p d, files.read p = some d → p.dir = cacheDir n → p ∉ X →
    ∃ v, lastPut puts n d.k = some v ∧ P.decode d.v = some v

/-- The step changes nothing outside the cache's own directory. -/
structure Local (h h' : Held V B) : Prop where
  tier : h'.cache.tier = h.cache.tier
  files : ∀ p, h'.files.read p = h.files.read p ∨ (n ∈ names ∧ p.dir = cacheDir n)
  nodup : (h.files.map Prod.fst).Nodup → (h'.files.map Prod.fst).Nodup

variable {P puts names n} {X : Set Path} {h h' h'' : Held V B}

lemma Local.refl (h : Held V B) : Local names n h h := ⟨rfl, fun _ => .inl rfl, id⟩

lemma Local.trans (h1 : Local names n h h') (h2 : Local names n h' h'') : Local names n h h'' where
  tier := h2.tier.trans h1.tier
  files p := by
    rcases h2.files p with heq | hdir
    · rcases h1.files p with heq' | hdir
      · exact .inl (heq.trans heq')
      · exact .inr hdir
    · exact .inr hdir
  nodup hn := h2.nodup (h1.nodup hn)

variable {k : String}

lemma StoredOk.mono {X' : Set Path} {tier : Tier} {files files' : Files B} {s : Stored V B}
    (hs : StoredOk P puts names n X tier files k s)
    (hfile : ∀ p d, s = .file p → p ∉ X → files.read p = some d → p ∉ X' ∧ files'.read p = some d) :
    StoredOk P puts names n X' tier files' k s := by
  cases s with
  | live v | bytes b => exact hs
  | file p =>
    obtain ⟨hdisk, hn, hdir, hX, d, hread, hk⟩ := hs
    obtain ⟨hX', hread'⟩ := hfile p d rfl hX hread
    exact ⟨hdisk, hn, hdir, hX', d, hread', hk⟩

lemma setOf_file (p : Path) : {q | (Stored.file p : Stored V B) = .file q} = {p} := by
  ext q
  exact ⟨fun hq => (Stored.file.inj hq).symm,
    fun hq => congrArg Stored.file (Set.mem_singleton_iff.1 hq).symm⟩

lemma Backed.congr (hb : Backed P puts names n X h) (htier : h'.cache.tier = h.cache.tier)
    (hfiles : ∀ p, h'.files.read p = h.files.read p) (hstored : ∀ k, h'.stored? k = h.stored? k) :
    Backed P puts names n X h' where
  disk a dir q h := hb.disk a dir q (htier ▸ h)
  stored k s hs := by
    rw [htier]
    exact (hb.stored k s (hstored k ▸ hs)).mono fun p _ _ hX hread => ⟨hX, (hfiles p).trans hread⟩
  entered hn p d hread hdir hX := by
    rw [hstored]
    exact hb.entered hn p d ((hfiles p).symm.trans hread) hdir hX

variable {p : Path}

lemma Backed.file_inj (hb : Backed P puts names n X h) {k k' : String}
    (hk : h.stored? k = some (.file p)) (hk' : h.stored? k' = some (.file p)) : k = k' := by
  obtain ⟨-, -, -, -, d, hread, rfl⟩ := hb.stored k _ hk
  obtain ⟨-, -, -, -, d', hread', rfl⟩ := hb.stored k' _ hk'
  rw [some.inj (hread.symm.trans hread')]

open scoped Classical in
lemma read_removeKey (h : Held V B) (k : String) (p : Path) :
    (h.removeKey k).files.read p = if h.stored? k = some (.file p) then none else
    h.files.read p := by
  rw [Held.files_removeKey]
  cases hstored : h.stored? k with
  | none => simp
  | some s =>
    cases s with
    | live v | bytes b => simp
    | file q =>
      rw [Files.read_remove]
      by_cases hp : p = q
      · simp [hp]
      · have hne : ¬ q = p := fun h => hp h.symm
        simp [hp, hne]

lemma Backed.removeKey (hb : Backed P puts names n X h) (k : String) :
    Backed P puts names n X (h.removeKey k) where
  disk a dir q h := hb.disk a dir q (Held.tier_removeKey ▸ h)
  stored k' s hs := by
    rw [Held.stored?_removeKey] at hs
    split at hs
    · cases hs
    next hk =>
      rw [Held.tier_removeKey]
      refine (hb.stored k' s hs).mono fun p d hp hX hread => ⟨hX, ?_⟩
      have hne : ¬ h.stored? k = some (.file p) := fun heq => hk (hb.file_inj (hp ▸ hs) heq)
      rw [read_removeKey, if_neg hne, hread]
  entered hn p d hread hdir hX := by
    rw [read_removeKey] at hread
    split at hread
    · cases hread
    next hne =>
      have hold := hb.entered hn p d hread hdir hX
      have hk : d.k ≠ k := fun heq => hne (heq ▸ hold)
      rw [Held.stored?_removeKey, if_neg hk, hold]

lemma Backed.local_removeKey (hb : Backed P puts names n X h) (k : String) :
    Local names n h (h.removeKey k) where
  tier := Held.tier_removeKey
  files p := by
    rw [read_removeKey]
    split
    next hk =>
      obtain ⟨-, hn, hdir, -⟩ := hb.stored k _ hk
      exact .inr ⟨hn, hdir⟩
    next => exact .inl rfl
  nodup hn := by
    rw [Held.files_removeKey]
    split
    · exact hn.sublist (filter_sublist.map _)
    · exact hn

lemma FilesOk.removeKey (hf : FilesOk P puts n X h.files) (k : String) :
    FilesOk P puts n X (h.removeKey k).files := by
  intro p d hread hdir hX
  rw [read_removeKey] at hread
  split at hread
  · cases hread
  · exact hf p d hread hdir hX

/-- What a cache does besides a put: the invariant stays, and so does all that is elsewhere. -/
def Keeps (P : Platform V B) (names : Set String) (n : String) (h h' : Held V B) : Prop :=
  ∀ puts X, Backed P puts names n X h → Backed P puts names n X h' ∧ Local names n h h' ∧
    (FilesOk P puts n X h.files → FilesOk P puts n X h'.files)

lemma Keeps.refl (h : Held V B) : Keeps P names n h h := fun _ _ hb => ⟨hb, .refl h, id⟩

lemma Keeps.trans (h1 : Keeps P names n h h') (h2 : Keeps P names n h' h'') :
    Keeps P names n h h'' := by
  intro puts X hb
  obtain ⟨hb', hl', hf'⟩ := h1 puts X hb
  obtain ⟨hb'', hl'', hf''⟩ := h2 puts X hb'
  exact ⟨hb'', hl'.trans hl'', fun hf => hf'' (hf' hf)⟩

lemma keeps_removeKey (h : Held V B) (k : String) : Keeps P names n h (h.removeKey k) :=
  fun _ _ hb => ⟨hb.removeKey k, hb.local_removeKey k, fun hf => hf.removeKey k⟩

lemma keeps_of_same (htier : h'.cache.tier = h.cache.tier) (hfiles : h'.files = h.files)
    (hstored : ∀ k, h'.stored? k = h.stored? k) : Keeps P names n h h' := by
  intro puts X hb
  refine ⟨hb.congr htier (fun p => by rw [hfiles]) hstored, ⟨htier, fun p => ?_, fun hn => ?_⟩,
    fun hf => ?_⟩
  · exact .inl (by rw [hfiles])
  · rw [hfiles]
    exact hn
  · rw [hfiles]
    exact hf

lemma keeps_evict : ∀ (i : Nat) (h : Held V B), Keeps P names n h (Held.evict i h)
  | 0, h => .refl h
  | i + 1, h => by
    rw [Held.evict]
    split
    · split
      · exact .refl h
      · exact (keeps_removeKey h _).trans (keeps_evict i _)
    · exact .refl h

lemma keeps_foldl {α : Type} (key : α → String) : ∀ (xs : List α) (h : Held V B),
    Keeps P names n h (xs.foldl (fun h x => h.removeKey (key x)) h)
  | [], h => .refl h
  | x :: xs, h => (keeps_removeKey h (key x)).trans (keeps_foldl key xs _)

lemma keeps_get (h : Held V B) (k : String) (now : Nat) : Keeps P names n h (h.get P k now).1 := by
  unfold Held.get
  split
  · exact .refl h
  next e hentry =>
    split
    · exact keeps_removeKey h k
    · have htouch : Keeps P names n h (h.touch k e now) :=
        keeps_of_same rfl rfl fun k' => Held.stored?_touch hentry
      dsimp only
      split
      · exact htouch
      · exact htouch.trans (keeps_removeKey _ k)

lemma keeps_contains (h : Held V B) (k : String) (now : Nat) :
    Keeps P names n h (h.contains k now).1 := by
  unfold Held.contains
  split
  · split
    · exact keeps_removeKey h k
    · exact .refl h
  · exact .refl h

lemma keeps_clear (h : Held V B) : Keeps P names n h h.clear :=
  (keeps_foldl Prod.fst h.cache.entries h).trans (keeps_of_same rfl rfl fun _ => rfl)

lemma keeps_liveKeys (h : Held V B) (now : Nat) : Keeps P names n h (h.liveKeys now).1 :=
  keeps_foldl id _ h

lemma Backed.append (hb : Backed P puts names n X h) {e : Entry V B} (hfree : h.stored? k = none)
    (hstored : StoredOk P puts names n (X \ {p | e.stored = .file p})
      h.cache.tier h.files k e.stored) :
    Backed P puts names n (X \ {p | e.stored = .file p}) (h.append k e) where
  disk := hb.disk
  stored k' s hs := by
    rw [Held.stored?_append hfree] at hs
    split at hs
    next hk =>
      obtain rfl := some.inj hs
      exact hk ▸ hstored
    next => exact (hb.stored k' s hs).mono fun p d _ hX hread => ⟨fun hmem => hX hmem.1, hread⟩
  entered hn p d hread hdir hX := by
    rw [Held.stored?_append hfree]
    by_cases hp : e.stored = .file p
    · -- the new entry's own file
      rw [hp] at hstored
      obtain ⟨-, -, -, -, d', hread', hk⟩ := hstored
      obtain rfl := some.inj (hread'.symm.trans hread)
      rw [if_pos hk, hp]
    · have hold := hb.entered hn p d hread hdir fun hmem => hX ⟨hmem, hp⟩
      have hk : d.k ≠ k := by
        rintro rfl
        cases hfree.symm.trans hold
      rw [if_neg hk, hold]

lemma Backed.push (hb : Backed P puts names n X h) (hfree : h.stored? k = none) (v : V) :
    Backed P ((n, k, v) :: puts) names n X h where
  disk := hb.disk
  stored k' s hs := by
    have hold := hb.stored k' s hs
    have hne : ¬ (n = n ∧ k = k') := by
      rintro ⟨-, rfl⟩
      cases hfree.symm.trans hs
    have hlast :
      lastPut ((n, k, v) :: puts) n k' = lastPut puts n k' := by rw [lastPut_cons, if_neg hne]
    cases s with
    | live w => exact ⟨hold.1, hlast.trans hold.2⟩
    | bytes b =>
      obtain ⟨htier, w, hw, hdec⟩ := hold
      exact ⟨htier, w, hlast.trans hw, hdec⟩
    | file p => exact hold
  entered := hb.entered

lemma FilesOk.push (hf : FilesOk P puts n X h.files) (hn : n ∈ names)
    (hb : Backed P puts names n X h)
    (hfree : h.stored? k = none) (v : V) : FilesOk P ((n, k, v) :: puts) n X h.files := by
  intro p d hread hdir hX
  have hne : ¬ (n = n ∧ k = d.k) := by
    rintro ⟨-, rfl⟩
    cases hfree.symm.trans (hb.entered hn p d hread hdir hX)
  rw [lastPut_cons, if_neg hne]
  exact hf p d hread hdir hX

lemma Backed.write (hb : Backed P puts names n ∅ h) (hfresh : h.files.read p = none)
    (d : DiskEntry B) : Backed P puts names n {p} { h with files := h.files.write p d } where
  disk := hb.disk
  stored k s hs := by
    refine (hb.stored k s hs).mono fun q d' _ _ hread => ?_
    have hq : q ≠ p := by
      rintro rfl
      cases hfresh.symm.trans hread
    exact ⟨hq, by rw [Files.read_write, if_neg hq, hread]⟩
  entered hn q d' hread hdir hX := by
    have hq : q ≠ p := hX
    rw [Files.read_write, if_neg hq] at hread
    exact hb.entered hn q d' hread hdir (Set.notMem_empty q)

lemma FilesOk.write (hf : FilesOk P puts n ∅ h.files) (p : Path) (d : DiskEntry B) :
    FilesOk P puts n {p} (h.files.write p d) := by
  intro q d' hread hdir hX
  have hq : q ≠ p := hX
  rw [Files.read_write, if_neg hq] at hread
  exact hf q d' hread hdir (Set.notMem_empty q)

lemma Local.write (hn : n ∈ names) (hdir : p.dir = cacheDir n) (d : DiskEntry B) :
    Local names n h { h with files := h.files.write p d } where
  tier := rfl
  files q := by
    rw [Files.read_write]
    split
    next hq => exact .inr ⟨hn, hq ▸ hdir⟩
    next => exact .inl rfl
  nodup hnodup := by
    refine nodup_cons.2 ⟨?_, hnodup.sublist (filter_sublist.map _)⟩
    intro hmem
    obtain ⟨f, hf, hp⟩ := mem_map.1 hmem
    exact absurd hp (by simpa using (mem_filter.1 hf).2)

variable {id id' now : Nat} {v : V}

section

variable (hb : Backed P puts names n ∅ h) (hf : n ∈ names → FilesOk P puts n ∅ h.files)
  (hfresh : ∀ a dir q, h.cache.tier = .disk a dir q → h.files.read ⟨dir, id⟩ = none)
  (hcarries : (∀ a b, h.cache.tier ≠ .heap a b) → P.Carries v)
include hb hf hfresh hcarries

lemma store_ok {k : String} {s : Stored V B} {size : Nat}
    (hstore : h.store P id k v now = .ok (h', id', s, size)) :
    Local names n h h' ∧ Backed P puts names n {p | s = .file p} h' ∧
    (n ∈ names → FilesOk P puts n {p | s = .file p} h'.files) ∧
    StoredOk P ((n, k, v) :: puts) names n ∅ h'.cache.tier h'.files k s ∧
    (∀ p, s = .file p → ∃ d, h'.files.read p = some d ∧ d.k = k ∧ P.decode d.v = some v) := by
  have hlast : lastPut ((n, k, v) :: puts) n k = some v := by simp
  unfold Held.store at hstore
  split at hstore
  next a b htier =>
    obtain ⟨rfl, rfl, rfl, rfl⟩ : h = h' ∧ id = id' ∧ .live v = s ∧ P.heapBytes v = size := by
      simpa using hstore
    have hempty : {p | (Stored.live v : Stored V B) = .file p} = ∅ := by simp
    rw [hempty]
    exact ⟨.refl h, hb, hf, ⟨⟨a, b, htier⟩, hlast⟩, nofun⟩
  next a htier =>
    obtain ⟨_, -, hstore⟩ := Fallible.bind_eq_ok hstore
    obtain ⟨b, henc, hstore⟩ := Fallible.bind_eq_ok hstore
    obtain ⟨rfl, rfl, rfl, rfl⟩ : h = h' ∧ id = id' ∧ .bytes b = s ∧ P.length b = size := by
      simpa [pure, Except.pure] using hstore
    have hempty : {p | (Stored.bytes b : Stored V B) = .file p} = ∅ := by simp
    rw [hempty]
    exact ⟨.refl h, hb, hf, ⟨⟨a, htier⟩, v, hlast, hcarries (by simp [htier]) b henc⟩, nofun⟩
  next a dir q htier =>
    obtain ⟨_, -, hstore⟩ := Fallible.bind_eq_ok hstore
    obtain ⟨b, henc, hstore⟩ := Fallible.bind_eq_ok hstore
    obtain ⟨rfl, hn⟩ := hb.disk a dir q htier
    have hnew := hfresh a _ q htier
    simp [pure, Except.pure, Except.ok.injEq] at hstore
    obtain ⟨rfl, rfl, rfl, rfl⟩ := hstore
    rw [setOf_file]
    refine ⟨.write hn rfl _, hb.write hnew _, fun hn => (hf hn).write _ _, ?_, ?_⟩
    · refine ⟨⟨a, _, q, htier⟩, hn, rfl, Set.notMem_empty _, ⟨k, now, b⟩, ?_, rfl⟩
      rw [Files.read_write, if_pos rfl]
    · intro p hp
      obtain rfl := Stored.file.inj hp
      exact ⟨⟨k, now, b⟩, by
        rw [Files.read_write, if_pos rfl], rfl, hcarries (by simp [htier]) b henc⟩

/-- **A put** leaves a cache whose entries are those of the history with the put in it. -/
theorem put_ok {k : String} (hput : h.put P id k v now = .ok (h', id')) :
    Backed P ((n, k, v) :: puts) names n ∅ h' ∧
    (n ∈ names → FilesOk P ((n, k, v) :: puts) n ∅ h'.files) ∧ Local names n h h' := by
  unfold Held.put at hput
  split at hput
  · obtain ⟨_, hthrow, -⟩ := Fallible.bind_eq_ok hput
    cases hthrow
  obtain ⟨⟨h1, id1, s, size⟩, hstore, hput⟩ := Fallible.bind_eq_ok hput
  simp [pure, Except.pure, Except.ok.injEq] at hput
  obtain ⟨rfl, rfl⟩ := hput
  obtain ⟨hlocal, hb1, hf1, hstored, hfile⟩ := store_ok hb hf hfresh hcarries hstore
  have hfree : (h1.removeKey k).stored? k = none := by rw [Held.stored?_removeKey, if_pos rfl]
  -- the old entry's file is not the new one
  have hread : ∀ p, s = .file p → (h1.removeKey k).files.read p = h1.files.read p := by
    intro p hp
    have hne : ¬ h1.stored? k = some (.file p) := fun hold => (hb1.stored k _ hold).2.2.2.1 hp
    rw [read_removeKey, if_neg hne]
  have hstored2 : StoredOk P ((n, k, v) :: puts) names n
      ({p | s = .file p} \ {p | s = .file p})
          (h1.removeKey k).cache.tier (h1.removeKey k).files k s := by
    rw [Set.sdiff_self, Held.tier_removeKey]
    exact hstored.mono fun p d hp hX hd => ⟨hX, (hread p hp).trans hd⟩
  have hb2 := ((hb1.removeKey k).push hfree v).append (e := ⟨s, size, now, now⟩) hfree hstored2
  rw [Set.sdiff_self] at hb2
  obtain ⟨hb3, hlocal3, hf3⟩ := keeps_evict _ _ _ _ hb2
  have hlocal2 : Local names n h ((h1.removeKey k).append k ⟨s, size, now, now⟩) :=
    (hlocal.trans (hb1.local_removeKey k)).trans ⟨rfl, fun _ => .inl rfl, fun hn => hn⟩
  refine ⟨hb3, fun hn => hf3 ?_, hlocal2.trans hlocal3⟩
  intro p d hd hdir _
  by_cases hp : s = .file p
  · obtain ⟨d', hd', rfl, hdec⟩ := hfile p hp
    obtain rfl := some.inj (((hread p hp).trans hd').symm.trans hd)
    exact ⟨v, by simp, hdec⟩
  · exact ((hf1 hn).removeKey k).push hn (hb1.removeKey k) hfree v p d hd hdir hp

end

lemma Backed.enter (hb : Backed P puts names n X h) {d : DiskEntry B}
    (htier : ∃ a dir q, h.cache.tier = .disk a dir q) (hn : n ∈ names) (hdir : p.dir = cacheDir n)
    (hread : h.files.read p = some d) (hX : p ∈ X) :
    Backed P puts names n (X \ {p}) (h.enter P (p, d)) ∧ Local names n h (h.enter P (p, d)) := by
  let e : Entry V B := ⟨.file p, P.fileLength d, d.c, d.c⟩
  have hfree : (h.removeKey d.k).stored? d.k = none := by rw [Held.stored?_removeKey, if_pos rfl]
  have hset : {q | e.stored = .file q} = {p} := setOf_file p
  have hkept : (h.removeKey d.k).files.read p = some d := by
    have hne : ¬ h.stored? d.k = some (.file p) := fun hold => (hb.stored d.k _ hold).2.2.2.1 hX
    rw [read_removeKey, if_neg hne, hread]
  have hnew : StoredOk P puts names n (X \ {q | e.stored = .file q}) (h.removeKey d.k).cache.tier
      (h.removeKey d.k).files d.k e.stored := by
    rw [hset, Held.tier_removeKey]
    exact ⟨htier, hn, hdir, fun hmem => hmem.2 rfl, d, hkept, rfl⟩
  have happend := (hb.removeKey d.k).append hfree hnew
  rw [hset] at happend
  have hlocal := hb.local_removeKey d.k
  constructor
  · refine happend.congr ?_ (fun q => ?_) fun k => ?_
    · rw [Held.tier_enter]
      exact Held.tier_removeKey.symm
    · rw [Held.files_enter]
      rfl
    · rw [Held.stored?_enter, Held.stored?_append hfree, Held.stored?_removeKey]
      split <;> rfl
  · refine ⟨Held.tier_enter P _, fun q => ?_, fun hnodup => ?_⟩
    · rw [Held.files_enter]
      exact hlocal.files q
    · rw [Held.files_enter]
      exact hlocal.nodup hnodup

lemma Backed.foldl_enter (htier : ∃ a dir q, h.cache.tier = .disk a dir q) (hn : n ∈ names) :
    ∀ {found : List (Path × DiskEntry B)} {h' : Held V B}, Local names n h h' →
    (found.map Prod.fst).Nodup →
    (∀ f ∈ found, h'.files.read f.1 = some f.2 ∧ f.1.dir = cacheDir n) →
    Backed P puts names n {p | p ∈ found.map Prod.fst} h' → FilesOk P puts n ∅ h'.files →
    Backed P puts names n ∅ (found.foldl (Held.enter P) h') ∧
    Local names n h (found.foldl (Held.enter P) h') ∧
      FilesOk P puts n ∅ (found.foldl (Held.enter P) h').files
  | [], h', hlocal, _, _, hb, hf => by
    have hempty : {p : Path | p ∈ ([] : List (Path × DiskEntry B)).map Prod.fst} = ∅ := by
      ext p
      simp
    exact ⟨hempty ▸ hb, hlocal, hf⟩
  | (p, d) :: found, h', hlocal, hnodup, hread, hb, hf => by
    obtain ⟨hfresh, hnodup'⟩ := nodup_cons.1 hnodup
    obtain ⟨hp, hdir⟩ := hread (p, d) mem_cons_self
    have htier' : ∃ a dir q, h'.cache.tier = .disk a dir q := by
      obtain ⟨a, dir, q, ht⟩ := htier
      exact ⟨a, dir, q, hlocal.tier.trans ht⟩
    obtain ⟨hb', hlocal'⟩ := hb.enter htier' hn hdir hp mem_cons_self
    have hset : {q | q ∈ ((p, d) :: found).map Prod.fst} \ {p} = {q | q ∈ found.map Prod.fst} := by
      ext q
      constructor
      · rintro ⟨hq, hne⟩
        exact (mem_cons.1 hq).resolve_left hne
      · intro hq
        refine ⟨mem_cons_of_mem _ hq, ?_⟩
        rintro rfl
        exact hfresh hq
    rw [hset] at hb'
    have hnext : ∀ f ∈ found, (h'.enter P (p, d)).files.read f.1 = some f.2 ∧
        f.1.dir = cacheDir n := by
      intro f hmem
      -- the file that goes has been entered before
      obtain ⟨hf, hfdir⟩ := hread f (mem_cons_of_mem _ hmem)
      have hne : ¬ h'.stored? d.k = some (.file f.1) := fun hold =>
        (hb.stored d.k _ hold).2.2.2.1 (mem_cons_of_mem _ (mem_map_of_mem hmem))
      exact ⟨by rw [Held.files_enter, read_removeKey, if_neg hne, hf], hfdir⟩
    have hfiles : FilesOk P puts n ∅ (h'.enter P (p, d)).files := by
      rw [Held.files_enter]
      exact hf.removeKey d.k
    have hrest := foldl_enter htier hn (hlocal.trans hlocal') hnodup' hnext hb' hfiles
    exact hrest

lemma read_foldl_remove : ∀ (l : Files B) (files : Files B) (q : Path),
    (l.foldl (fun files f => files.remove f.1) files).read q =
      if q ∈ l.map Prod.fst then none else files.read q
  | [], files, q => by simp
  | f :: l, files, q => by
    rw [foldl_cons, read_foldl_remove l, Files.read_remove, map_cons]
    by_cases hq : q = f.1
    · simp [hq]
    · by_cases hmem : q ∈ l.map Prod.fst
      · rw [if_pos hmem, if_pos (mem_cons_of_mem _ hmem)]
      · rw [if_neg hmem, if_neg hq, if_neg fun h => (mem_cons.1 h).elim hq hmem]

lemma nodup_foldl_remove : ∀ (l : Files B) {files : Files B}, (files.map Prod.fst).Nodup →
    ((l.foldl (fun files f => files.remove f.1) files).map Prod.fst).Nodup
  | [], _, h => h
  | _ :: l, _, h => nodup_foldl_remove l (h.sublist (filter_sublist.map _))

theorem reload_ok (hempty : h.cache.entries = [])
    (hdisk : ∃ a q, h.cache.tier = .disk a (cacheDir n) q)
    (hn : n ∈ names) (hnodup : (h.files.map Prod.fst).Nodup) (hf : FilesOk P puts n ∅ h.files) :
    Backed P puts names n ∅ (h.reloadFromDisk P) ∧ Local names n h (h.reloadFromDisk P) ∧
      FilesOk P puts n ∅ (h.reloadFromDisk P).files := by
  obtain ⟨a, q, htier⟩ := hdisk
  let listed := P.readDir (h.files.filter fun f => f.1.dir = cacheDir n)
  let unreadable := listed.filter fun f => (P.decode f.2.v).isNone
  let found := listed.filter fun f => (P.decode f.2.v).isSome
  let sorted := found.mergeSort fun a b => a.2.c ≤ b.2.c
  let h1 : Held V B :=
    { h with files := unreadable.foldl (fun files f => files.remove f.1) h.files }
  have hreload : h.reloadFromDisk P = (sorted.foldl (Held.enter P) h1).enforceCapacity := by
    rw [Held.reloadFromDisk]
    simp only [htier]
    rfl
  have hlisted : ∀ f, f ∈ listed ↔ f ∈ h.files ∧ f.1.dir = cacheDir n := by
    intro f
    rw [(P.readDir_perm _).mem_iff, mem_filter]
    simp
  have hpaths : (listed.map Prod.fst).Nodup :=
    ((P.readDir_perm _).map _).nodup_iff.2 (hnodup.sublist (filter_sublist.map _))
  have hsorted : ∀ f, f ∈ sorted ↔ f ∈ listed ∧ (P.decode f.2.v).isSome = true := by
    intro f
    rw [(mergeSort_perm _ _).mem_iff, mem_filter]
  have hread : ∀ p d, h1.files.read p = some d ↔ h.files.read p = some d ∧
      p ∉ unreadable.map Prod.fst := by
    intro p d
    rw [show h1.files.read p = _ from read_foldl_remove unreadable h.files p]
    by_cases hp : p ∈ unreadable.map Prod.fst <;> simp [hp]
  have hlocal1 : Local names n h h1 := by
    refine ⟨rfl, fun p => ?_, nodup_foldl_remove unreadable⟩
    rw [show h1.files.read p = _ from read_foldl_remove unreadable h.files p]
    split
    next hmem =>
      obtain ⟨f, hf, rfl⟩ := mem_map.1 hmem
      exact .inr ⟨hn, ((hlisted f).1 (mem_filter.1 hf).1).2⟩
    next => exact .inl rfl
  have hfound : ∀ f ∈ sorted, h1.files.read f.1 = some f.2 ∧ f.1.dir = cacheDir n := by
    intro f hf
    obtain ⟨hl, hsome⟩ := (hsorted f).1 hf
    obtain ⟨hfile, hdir⟩ := (hlisted f).1 hl
    refine ⟨(hread f.1 f.2).2 ⟨Assoc.lookup_of_mem hnodup hfile, fun hmem => ?_⟩, hdir⟩
    -- a path has one file, which is readable or not
    obtain ⟨g, hg, hpath⟩ := mem_map.1 hmem
    obtain ⟨hgl, hnone⟩ := mem_filter.1 hg
    have hsame : g = f := inj_on_of_nodup_map hpaths hgl hl hpath
    rw [hsame, isNone_iff_eq_none] at hnone
    rw [hnone] at hsome
    cases hsome
  have hstored : ∀ k, h1.stored? k = none := by
    intro k
    show (h.cache.entries.lookup k).map Entry.stored = none
    rw [hempty]
    rfl
  have hb1 : Backed P puts names n {p | p ∈ sorted.map Prod.fst} h1 := by
    refine ⟨fun a' dir q' ht => ?_, fun k s hs => ?_, fun _ p d hp hdir hX => absurd ?_ hX⟩
    · have hinj := htier.symm.trans ht
      cases hinj
      exact ⟨rfl, hn⟩
    · rw [hstored] at hs
      cases hs
    · obtain ⟨hp, hreadable⟩ := (hread p d).1 hp
      have hl : (p, d) ∈ listed := (hlisted (p, d)).2 ⟨Assoc.mem_of_lookup hp, hdir⟩
      refine mem_map.2 ⟨(p, d), (hsorted (p, d)).2 ⟨hl, ?_⟩, rfl⟩
      by_contra hnone
      have hbad : (p, d) ∈ unreadable := mem_filter.2 ⟨hl, by simpa using hnone⟩
      exact hreadable (mem_map.2 ⟨(p, d), hbad, rfl⟩)
  have hf1 : FilesOk P puts n ∅ h1.files :=
    fun p d hp hdir hX => hf p d ((hread p d).1 hp).1 hdir hX
  have hnodup' : (sorted.map Prod.fst).Nodup :=
    ((mergeSort_perm _ _).map _).nodup_iff.2 (hpaths.sublist (filter_sublist.map _))
  obtain ⟨hb2, hlocal2, hf2⟩ :=
    Backed.foldl_enter ⟨a, _, q, htier⟩ hn hlocal1 hnodup' hfound hb1 hf1
  obtain ⟨hb3, hlocal3, hf3⟩ := keeps_evict _ _ _ _ hb2
  rw [hreload]
  exact ⟨hb3, hlocal2.trans hlocal3, hf3 hf2⟩

end

end RustCfml.Ehcache
