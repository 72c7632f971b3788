import RustCfml.Ehcache.Apart

/-!
# Runs of the manager

**The names of directories and files are where this can fail.** `cache_dir` maps different cache
names to one directory, and the empty name to the manager's own; and a process numbers its files
from one, whatever an earlier process has left there.
-/

namespace RustCfml.Ehcache

open StateMachine

variable {V B : Type} (P : Platform V B) (names : Set String)

def World.step (w : World V B) (op : Op V) : World V B :=
  let r := w.state.step P op
  { state := r.1
    puts :=
      match op, r.2 with
      | .put name key value _, .null => (name, key, value) :: w.puts
      | _, _ => w.puts }

def World.start : World V B := ⟨⟨1, none, []⟩, []⟩

/-- `get` returns the value of the latest put under the key in this cache, if any; creating a cache
changes neither the entries nor the files of the others. -/
def Sound (w : World V B) : Op V → Prop
  | .get name key now => ∀ v, (w.state.step P (.get name key now)).2 = .value v →
    lastPut w.puts name key = some v
  | .createCache name cfg => ∀ other, other ≠ name →
    ((w.state.step P (.createCache name cfg)).1.cache? other = w.state.cache? other ∧
      (other ∈ names → ∀ p : Path, p.dir = cacheDir other →
        (w.state.step P (.createCache name cfg)).1.files.read p = w.state.files.read p))
  | _ => True

def Separate : Prop := ∀ n ∈ names, ∀ m ∈ names, n ≠ m → cacheDir n ≠ cacheDir m ∧ cacheDir n ≠ ""

/-- The condition on a call: disk caches have the names of `names`, one of these is not given to
another kind of cache while its directory has files, a put on disk draws a number its directory has
no file of, and a value put outside the heap is carried by its serialised form. -/
def Careful (w : World V B) : Op V → Prop
  | .createCache name cfg =>
    match buildTier P name cfg with
    | .disk _ _ _ => name ∈ names
    | _ => name ∈ names → ∀ p : Path, p.dir = cacheDir name → w.state.files.read p = none
  | .put name _ value _ => ∀ c, w.state.cache? name = some c →
    (∀ a dir q, c.tier = .disk a dir q → w.state.files.read ⟨dir, w.state.nextId⟩ = none) ∧
    ((∀ a b, c.tier ≠ .heap a b) → P.Carries value)
  | _ => True

/-- Every cache is backed, and every file is of the put that was last. -/
structure Inv (w : World V B) : Prop where
  nodup : (w.state.files.map Prod.fst).Nodup
  caches : ∀ n c, w.state.cache? n = some c → Backed P w.puts names n ∅ ⟨c, w.state.files⟩
  files : ∀ n ∈ names, FilesOk P w.puts n ∅ w.state.files

section

variable {P names} {puts puts' : List (String × String × V)} {files files' : Files B} {n m : String}

lemma Backed.transfer {c : Cache V B} (hb : Backed P puts names m ∅ ⟨c, files⟩)
    (hputs : ∀ k, lastPut puts' m k = lastPut puts m k)
    (hfiles : m ∈ names → ∀ p : Path, p.dir = cacheDir m → files'.read p = files.read p) :
    Backed P puts' names m ∅ ⟨c, files'⟩ where
  disk := hb.disk
  stored k s hs := by
    have hold := hb.stored k s hs
    cases s with
    | live v => exact ⟨hold.1, (hputs k).trans hold.2⟩
    | bytes b =>
      obtain ⟨htier, v, hv, hdec⟩ := hold
      exact ⟨htier, v, (hputs k).trans hv, hdec⟩
    | file p =>
      obtain ⟨htier, hm, hdir, hX, d, hread, hk⟩ := hold
      exact ⟨htier, hm, hdir, hX, d, (hfiles hm p hdir).trans hread, hk⟩
  entered hm p d hread hdir hX := hb.entered hm p d ((hfiles hm p hdir).symm.trans hread) hdir hX

lemma FilesOk.transfer (hf : FilesOk P puts m ∅ files)
    (hputs : ∀ k, lastPut puts' m k = lastPut puts m k)
    (hfiles : ∀ p : Path, p.dir = cacheDir m → ∀ d, files'.read p = some d →
      files.read p = some d) :
    FilesOk P puts' m ∅ files' := by
  intro p d hread hdir hX
  obtain ⟨v, hv, hdec⟩ := hf p d (hfiles p hdir d hread) hdir hX
  exact ⟨v, (hputs d.k).trans hv, hdec⟩

lemma Local.elsewhere (hsep : Separate names) {h h' : Held V B} (hl : Local names n h h')
    (hne : m ≠ n) (hm : m ∈ names) {p : Path} (hp : p.dir = cacheDir m) :
    h'.files.read p = h.files.read p := by
  rcases hl.files p with heq | ⟨hn, hdir⟩
  · exact heq
  · exact absurd (hp.symm.trans hdir) (hsep m hm n hn hne).1

end

variable {puts : List (String × String × V)}

lemma lastPut_cons_ne {n m : String} (hne : m ≠ n) (k k' : String)
    (v : V) : lastPut ((n, k, v) :: puts) m k' = lastPut puts m k' := by
  rw [lastPut_cons, if_neg]
  rintro ⟨heq, -⟩
  exact hne heq.symm

variable {P names} {w : World V B} {c : Cache V B} {k dir : String} {cfg : Config} {h : Held V B}
    {v : V}
  {now a : Nat} {q : Bool}

section

variable (hsep : Separate names) (hi : Inv P names w)
include hsep hi

/-- **A cache was used**: its new state is in the manager, in the place of the old one. -/
theorem Inv.used {mgr : Manager V B} (hmgr : w.state.manager = some mgr) {n : String}
    (hc : mgr.caches.lookup n = some c) {id : Nat} {puts : List (String × String × V)}
    (hb : Backed P puts names n ∅ h) (hf : n ∈ names → FilesOk P puts n ∅ h.files)
    (hl : Local names n ⟨c, w.state.files⟩ h)
    (hputs : ∀ m, m ≠ n → ∀ k, lastPut puts m k = lastPut w.puts m k) :
    Inv P names ⟨⟨id, some (State.setCache mgr n h.cache), h.files⟩, puts⟩ where
  nodup := hl.nodup hi.nodup
  caches m c' hm := by
    have hlookup : (mgr.caches.map fun x => if x.1 = n then (n, h.cache) else x).lookup m =
      some c' := hm
    rw [Assoc.lookup_map_key] at hlookup
    split at hlookup
    next heq =>
      rw [hc] at hlookup
      obtain rfl : h.cache = c' := Option.some.inj hlookup
      exact heq ▸ hb
    next hne =>
      have hold : w.state.cache? m = some c' := by
        rw [State.cache?, hmgr]
        exact hlookup
      exact (hi.caches m c' hold).transfer (hputs m hne) fun hm p hp => hl.elsewhere hsep hne hm hp
  files m hm := by
    by_cases heq : m = n
    · exact heq ▸ hf (heq ▸ hm)
    · exact (hi.files m hm).transfer (hputs m heq) fun p hp d hread =>
        (hl.elsewhere hsep heq hm hp).symm.trans hread

lemma Inv.withCache {n : String} {f : Held V B → Except String (Held V B × Nat × Reply V)}
    (hf : ∀ h r, f h = .ok r → Keeps P names n h r.1) :
    Inv P names ⟨(w.state.withCache n f).1, w.puts⟩ := by
  unfold State.withCache
  split
  · exact hi
  next mgr hmgr =>
    split
    · exact hi
    next c hc =>
      split
      · exact hi
      next h' id' reply hok =>
        have hcache : w.state.cache? n = some c := by
          rw [State.cache?, hmgr]
          exact hc
        obtain ⟨hb, hl, hfiles⟩ := hf _ _ hok _ _ (hi.caches n c hcache)
        exact hi.used hsep hmgr hc hb (fun hn => hfiles (hi.files n hn)) hl fun _ _ _ => rfl

theorem Inv.put {n : String} (hcareful : Careful P names w (.put n k v now)) :
    Inv P names (w.step P (.put n k v now)) := by
  unfold World.step State.step
  dsimp only
  unfold State.withCache
  split
  · exact hi
  next mgr hmgr =>
    split
    · exact hi
    next c hc =>
      have hcache : w.state.cache? n = some c := by
        rw [State.cache?, hmgr]
        exact hc
      split
      · exact hi
      next h' id' reply hok =>
        obtain ⟨⟨h1, id1⟩, hput, hreturn⟩ := Fallible.bind_eq_ok hok
        simp only [pure, Except.pure, Except.ok.injEq, Prod.mk.injEq] at hreturn
        obtain ⟨rfl, rfl, rfl⟩ := hreturn
        obtain ⟨hb, hf, hl⟩ := put_ok (hi.caches n c hcache) (hi.files n)
          (hcareful c hcache).1 (hcareful c hcache).2 hput
        exact hi.used hsep hmgr hc hb hf hl fun m hne k' => lastPut_cons_ne hne k k' v

end

variable {n : String}

lemma buildCache_spec (h : buildCache P n cfg = .ok c) : c.tier = buildTier P n cfg ∧
    c.entries = [] := by
  unfold buildCache at h
  obtain ⟨vc, -, h⟩ := Fallible.bind_eq_ok h
  obtain rfl := Except.ok.inj h
  exact ⟨rfl, rfl⟩

lemma buildTier_dir (h : buildTier P n cfg = .disk a dir q) : dir = cacheDir n := by
  unfold buildTier at h
  dsimp only at h
  split at h
  · cases h
  · split at h
    · cases h
      rfl
    · cases h

lemma backed_empty {files : Files B}
    (hentries : c.entries = []) (hdisk : ∀ a dir q, c.tier = .disk a dir q → dir = cacheDir n ∧
      n ∈ names)
    (hfiles : n ∈ names → ∀ p : Path, p.dir = cacheDir n → files.read p = none) :
    Backed P puts names n ∅ ⟨c, files⟩ where
  disk := hdisk
  stored k s hs := by
    have hnone : (Held.mk c files).stored? k = none := by simp [Held.stored?, Held.entry?, hentries]
    cases hnone.symm.trans hs
  entered hn p d hread hdir _ := by cases (hfiles hn p hdir).symm.trans hread

/-- **A cache is created**: it is backed, and the files of the others are as they were. -/
theorem openCache_ok (hsep : Separate names) (hi : Inv P names w)
    (hbuild : buildCache P n cfg = .ok c)
    (hcareful : Careful P names w (.createCache n cfg)) :
    Backed P w.puts names n ∅ (State.openCache P c w.state.files) ∧
    (∀ m ∈ names, m ≠ n → ∀ p : Path, p.dir = cacheDir m →
      (State.openCache P c w.state.files).files.read p = w.state.files.read p) ∧
    (n ∈ names → FilesOk P w.puts n ∅ (State.openCache P c w.state.files).files) ∧
    ((State.openCache P c w.state.files).files.map Prod.fst).Nodup := by
  obtain ⟨htier, hentries⟩ := buildCache_spec hbuild
  rw [Careful, ← htier] at hcareful
  unfold State.openCache
  cases hc : c.tier with
  | heap a b | offHeap a =>
    rw [hc] at hcareful
    refine ⟨backed_empty hentries (fun a dir q h => ?_) hcareful, fun _ _ _ _ _ => rfl, hi.files n,
      hi.nodup⟩
    cases hc.symm.trans h
  | disk a dir q =>
    rw [hc] at hcareful
    have hn : n ∈ names := hcareful
    obtain rfl : dir = cacheDir n := buildTier_dir (htier.symm.trans hc)
    cases q with
    | true =>
      obtain ⟨hb, hl, hf⟩ :=
        @reload_ok V B P w.puts names n ⟨c, w.state.files⟩ hentries ⟨a, true, hc⟩
        hn hi.nodup (hi.files n hn)
      exact ⟨hb, fun m hm hne p hp => hl.elsewhere hsep hne hm hp, fun _ => hf, hl.nodup hi.nodup⟩
    | false =>
      have hread : ∀ p : Path, (w.state.files.removeDirAll (cacheDir n)).read p =
          if cacheDir n = "" ∨ p.dir = cacheDir n then none else w.state.files.read p :=
        fun p => Files.read_removeDirAll
      refine ⟨backed_empty hentries (fun a' dir' q' h => ?_) fun _ p hp => ?_,
        fun m hm hne p hp => ?_,
        fun _ p d hp hdir _ => ?_, ?_⟩
      · cases hc.symm.trans h
        exact ⟨rfl, hn⟩
      · exact (hread p).trans (if_pos (.inr hp))
      · -- the directory of another cache is neither this one nor below it
        refine (hread p).trans (if_neg ?_)
        rintro (hroot | hdir)
        · exact (hsep n hn m hm fun h => hne h.symm).2 hroot
        · exact (hsep m hm n hn hne).1 (hp.symm.trans hdir)
      · cases ((hread p).trans (if_pos (.inr hdir))).symm.trans hp
      · exact hi.nodup.sublist (List.filter_sublist.map _)

lemma createCache_cases (s : State V B) (n : String) (cfg : Config) :
    (s.createCache P n cfg).1 = s ∨
    ∃ mgr c, s.manager = some mgr ∧ mgr.caches.lookup n = none ∧ buildCache P n cfg = .ok c ∧
      (s.createCache P n cfg).1 = { s with
        manager := some { mgr with
          caches := mgr.caches ++ [(n, (State.openCache P c s.files).cache)] }
        files := (State.openCache P c s.files).files } := by
  unfold State.createCache
  split
  · exact .inl rfl
  next mgr hmgr =>
    split
    · exact .inl rfl
    · split
      · exact .inl rfl
      next hfree =>
        split
        · exact .inl rfl
        next c hbuild =>
          exact .inr ⟨mgr, c,
            hmgr, by simpa using Option.not_isSome_iff_eq_none.1 hfree, hbuild, rfl⟩

lemma lookup_added {l : List (String × Cache V B)} {n m : String} (hne : m ≠ n) :
    (l ++ [(n, c)]).lookup m = l.lookup m := by
  have hbeq : (m == n) = false := by simpa using hne
  simp [List.lookup_append, List.lookup_cons, hbeq]

lemma lookup_added_self {l : List (String × Cache V B)}
    (hfree : l.lookup n = none) : (l ++ [(n, c)]).lookup n = some c := by
  rw [List.lookup_append, hfree]
  simp

lemma Inv.createCache (hsep : Separate names) (hi : Inv P names w)
    (hcareful : Careful P names w (.createCache n cfg)) :
    Sound P names w (.createCache n cfg) ∧ Inv P names (w.step P (.createCache n cfg)) := by
  have hstate : w.step P (.createCache n cfg) = ⟨(w.state.createCache P n cfg).1, w.puts⟩ := rfl
  rw [hstate]
  rcases @createCache_cases V B P w.state n cfg with hsame | ⟨mgr, c, hmgr, hfree, hbuild, hnew⟩
  · constructor
    · intro m hne
      rw [show w.state.step P (.createCache n cfg) = w.state.createCache P n cfg from rfl, hsame]
      exact ⟨rfl, fun _ _ _ => rfl⟩
    · rw [hsame]
      exact hi
  obtain ⟨hb, helse, hf, hnodup⟩ := openCache_ok hsep hi hbuild hcareful
  have hold : ∀ m, w.state.cache? m = mgr.caches.lookup m := by
    intro m
    rw [State.cache?, hmgr]
    rfl
  constructor
  · intro m hne
    rw [show w.state.step P (.createCache n cfg) = w.state.createCache P n cfg from rfl, hnew]
    exact ⟨(lookup_added hne).trans (hold m).symm, fun hm p hp => helse m hm hne p hp⟩
  · rw [hnew]
    refine ⟨hnodup, fun m c' hm => ?_, fun m hm => ?_⟩
    · have hm' : (mgr.caches ++ [(n, (State.openCache P c w.state.files).cache)]).lookup m =
        some c' := hm
      by_cases heq : m = n
      · subst heq
        rw [lookup_added_self hfree] at hm'
        obtain rfl := Option.some.inj hm'
        exact hb
      · rw [lookup_added heq, ← hold m] at hm'
        exact (hi.caches m c' hm').transfer (fun _ => rfl) fun hm p hp => helse m hm heq p hp
    · by_cases heq : m = n
      · exact heq ▸ hf (heq ▸ hm)
      · exact (hi.files m hm).transfer (fun _ => rfl) fun p hp d hread =>
          (helse m hm heq p hp).symm.trans hread

lemma Inv.withoutCaches (hi : Inv P names w) {s : State V B}
    (hcaches : ∀ n, s.cache? n = none) (hfiles : s.files.Sublist w.state.files)
    (hread : ∀ p d, s.files.read p = some d → w.state.files.read p = some d) :
    Inv P names ⟨s, w.puts⟩ where
  nodup := hi.nodup.sublist (hfiles.map _)
  caches n c hc := by cases (hcaches n).symm.trans hc
  files n hn := (hi.files n hn).transfer (fun _ => rfl) fun p _ d hd => hread p d hd

lemma close_files : ∀ (caches : List (String × Cache V B)) (files : Files B),
    let files' := caches.foldl (fun files x =>
      match x.2.tier with
      | .disk _ dir false => files.removeDirAll dir
      | _ => files) files
    files'.Sublist files ∧ ∀ p d, files'.read p = some d → files.read p = some d
  | [], files => ⟨.refl files, fun _ _ h => h⟩
  | x :: caches, files => by
    have hstep : ∀ f : Files B, f = (match x.2.tier with
        | .disk _ dir false => files.removeDirAll dir
        | _ => files) → f.Sublist files ∧ ∀ p d, f.read p = some d → files.read p = some d := by
      rintro f rfl
      split
      · refine ⟨List.filter_sublist, fun p d h => ?_⟩
        rw [Files.read_removeDirAll] at h
        split at h
        · cases h
        · exact h
      · exact ⟨.refl files, fun _ _ h => h⟩
    obtain ⟨hsub, hread⟩ := hstep _ rfl
    obtain ⟨hsub', hread'⟩ := close_files caches _
    exact ⟨hsub'.trans hsub, fun p d h => hread p d (hread' p d h)⟩

lemma Backed.load_eq (hb : Backed P puts names n ∅ h) (hf : n ∈ names → FilesOk P puts n ∅ h.files)
    {e : Entry V B}
    (hentry : h.entry? k = some e) (hload : h.load P e = some v) :
    lastPut puts n k = some v := by
  have hstored := hb.stored k e.stored (by rw [Held.stored?, hentry]; rfl)
  unfold Held.load at hload
  cases hs : e.stored with
  | live u =>
    rw [hs] at hstored hload
    obtain rfl := Option.some.inj hload
    exact hstored.2
  | bytes b =>
    rw [hs] at hstored hload
    obtain ⟨-, u, hlast, hdec⟩ := hstored
    obtain rfl := Option.some.inj (hdec.symm.trans hload)
    exact hlast
  | file p =>
    rw [hs] at hstored hload
    obtain ⟨-, hn, hdir, -, d, hread, rfl⟩ := hstored
    obtain ⟨u, hlast, hdec⟩ := hf hn p d hread hdir (Set.notMem_empty p)
    have hsame : P.decode d.v = some v := by simpa [hread] using hload
    obtain rfl := Option.some.inj (hdec.symm.trans hsame)
    exact hlast

lemma Held.get_eq_some (hget : (h.get P k now).2 = some v) : ∃ e, h.entry? k = some e ∧
    h.load P e = some v := by
  unfold Held.get at hget
  split at hget
  · cases hget
  next e hentry =>
    split at hget
    · cases hget
    · dsimp only at hget
      split at hget
      next u hload =>
        obtain rfl := Option.some.inj hget
        exact ⟨e, hentry, hload⟩
      next => cases hget

lemma Inv.get_sound (hi : Inv P names w) (n k : String) (now : Nat) :
    Sound P names w (.get n k now) := by
  intro v hreply
  unfold State.step at hreply
  dsimp only at hreply
  unfold State.withCache at hreply
  cases hmgr : w.state.manager with
  | none => simp [hmgr] at hreply
  | some mgr =>
    cases hc : mgr.caches.lookup n with
    | none => simp [hmgr, hc] at hreply
    | some c =>
      have hcache : w.state.cache? n = some c := by
        rw [State.cache?, hmgr]
        exact hc
      have hb := hi.caches n c hcache
      simp only [hmgr, hc] at hreply
      split at hreply
      next u hget =>
        obtain rfl := Reply.value.inj hreply
        obtain ⟨e, hentry, hload⟩ := Held.get_eq_some hget
        exact hb.load_eq (hi.files n) hentry hload
      next => cases hreply

theorem Inv.step (hsep : Separate names) (hi : Inv P names w) (op : Op V)
    (hcareful : Careful P names w op) : Sound P names w op ∧ Inv P names (w.step P op) := by
  cases op with
  | init =>
    refine ⟨trivial, ?_⟩
    show Inv P names ⟨(w.state.init).1, w.puts⟩
    unfold State.init
    split
    · exact hi.withoutCaches (fun n => rfl) (.refl _) fun _ _ h => h
    next mgr hmgr =>
      split
      · exact hi
      · refine ⟨hi.nodup, fun n c hc => hi.caches n c ?_, hi.files⟩
        rw [State.cache?, hmgr]
        exact hc
  | close =>
    refine ⟨trivial, ?_⟩
    show Inv P names ⟨(w.state.close).1, w.puts⟩
    unfold State.close
    split
    · exact hi
    next mgr hmgr =>
      obtain ⟨hsub, hread⟩ := close_files mgr.caches w.state.files
      exact hi.withoutCaches (fun n => rfl) hsub hread
  | createCache n cfg => exact hi.createCache hsep hcareful
  | get n k now =>
    refine ⟨hi.get_sound n k now, hi.withCache hsep fun h r hr => ?_⟩
    obtain rfl := Except.ok.inj hr
    exact keeps_get h k now
  | put n k v now => exact ⟨trivial, hi.put hsep hcareful⟩
  | containsKey n k now =>
    refine ⟨trivial, hi.withCache hsep fun h r hr => ?_⟩
    obtain rfl := Except.ok.inj hr
    exact keeps_contains h k now
  | remove n k =>
    refine ⟨trivial, hi.withCache hsep fun h r hr => ?_⟩
    obtain rfl := Except.ok.inj hr
    exact keeps_removeKey h k
  | clear n =>
    refine ⟨trivial, hi.withCache hsep fun h r hr => ?_⟩
    obtain rfl := Except.ok.inj hr
    exact keeps_clear h
  | keys n now =>
    refine ⟨trivial, hi.withCache hsep fun h r hr => ?_⟩
    obtain rfl := Except.ok.inj hr
    exact keeps_liveKeys h now
  | drawId => exact ⟨trivial, hi.nodup, hi.caches, hi.files⟩
  | restart => exact ⟨trivial, hi.withoutCaches (fun n => rfl) (.refl _) fun _ _ h => h⟩

variable (P names)

/-- **Storage.** In a run of careful calls over disk caches whose directories are apart, every `get`
returns nothing or what was put last there, and creating a cache leaves the others alone. -/
theorem stores_apart (hsep : Separate names) (ops : List (Op V))
    (hcareful : EachStep (World.step P) (Careful P names) World.start ops) :
    EachStep (World.step P) (Sound P names) World.start ops := by
  have hstart : Inv P names (World.start : World V B) := by
    refine ⟨.nil, fun n c hc => ?_, fun n _ p d hread => ?_⟩
    · cases hc
    · cases hread
  exact eachStep_of_invariant (fun w op hi hg => hi.step hsep op hg) hstart hcareful

def texts : Platform String String where
  kind _ := .string
  checkSerialisable _ := .ok ()
  encode := .ok
  decode := some
  heapBytes := String.length
  length := String.length
  fileLength d := d.v.length
  readDir := id
  readDir_perm := .refl
  tables := .asciiLetters

def onDisk : Config := { storage := some "disk", persistent := true }

lemma careful_createCache {w : World String String}
    (htier : buildTier texts n onDisk = .disk a dir q)
    (hn : n ∈ names) : Careful texts names w (.createCache n onDisk) := by
  rw [Careful, htier]
  exact hn

lemma careful_put {w : World String String} {n k v dir : String} {now a : Nat} {q : Bool}
    (htier : (w.state.cache? n).map Cache.tier = some (.disk a dir q))
    (hfresh : w.state.files.read ⟨dir, w.state.nextId⟩ = none) :
    Careful texts names w (.put n k v now) := by
  intro c hc
  refine ⟨fun a' dir' q' hdisk => ?_, fun _ b hb => congrArg some (Except.ok.inj hb).symm⟩
  rw [hc, Option.map_some, hdisk] at htier
  cases htier
  exact hfresh

/-- A put on disk, a restart, and another number before the next put. -/
def restartRun : List (Op String) :=
  [.init, .createCache "c" onDisk, .put "c" "a" "1" 0, .restart, .init, .createCache "c" onDisk,
    .drawId, .put "c" "b" "2" 0, .get "c" "a" 0]

theorem stores_apart_restart : Separate {"c"} ∧
    EachStep (World.step texts) (Careful texts {"c"}) World.start restartRun ∧
    EachStep (World.step texts) (Sound texts {"c"}) World.start restartRun := by
  have hsep : Separate {"c"} := by
    intro n hn m hm hne
    exact absurd (hn.trans hm.symm) hne
  have htier : buildTier texts "c" onDisk = .disk 0 "c" true := by decide +kernel
  have hcareful : EachStep (World.step texts) (Careful texts {"c"}) World.start restartRun := by
    refine ⟨trivial, careful_createCache _ htier rfl, ?_, trivial, trivial,
      careful_createCache _ htier rfl, trivial, ?_, trivial, trivial⟩
    all_goals exact @careful_put _ _ _ _ _ "c" _ 0 true (by decide +kernel) (by decide +kernel)
  exact ⟨hsep, hcareful, stores_apart texts {"c"} hsep restartRun hcareful⟩

/-- The same without the number in between: the second put writes the file of the first. -/
def collidingRun : List (Op String) :=
  [.init, .createCache "c" onDisk, .put "c" "a" "1" 0, .restart, .init, .createCache "c" onDisk,
    .put "c" "b" "2" 0, .get "c" "a" 0]

def sharedRun : List (Op String) :=
  [.init, .createCache "a.b" onDisk, .put "a.b" "k" "1" 0, .createCache "a_b" onDisk,
    .get "a_b" "k" 0]

/-- **After a restart an entry is read under another key, and with two names for one directory in
another cache.** -/
theorem entries_mixed : ¬ EachStep (World.step texts) (Sound texts {"c"}) World.start collidingRun ∧
    ¬ EachStep (World.step texts) (Sound texts {"a.b", "a_b"}) World.start sharedRun := by
  constructor
  · rintro ⟨-, -, -, -, -, -, -, hget, -⟩
    exact absurd (hget "2" (by decide +kernel)) (by decide +kernel)
  · rintro ⟨-, -, -, -, hget, -⟩
    exact absurd (hget "1" (by decide +kernel)) (by decide +kernel)

end RustCfml.Ehcache
