import RustCfml.Lib.Assoc
import RustCfml.Session.DatasourceStore

/-!
# The last write is found

`DbCluster.keepsLast_of_exclusive`: in a run in which every session is written through one node at
a time, and the statements and records meet the other conditions of `Exclusive`, a `get` finds what
was set last.
-/

namespace RustCfml.Session

open StateMachine List Function

namespace TouchCache

lemma lookup_erase (c : TouchCache) (k k' : String) :
    (c.erase k).lookup k' = if k' = k then none else c.lookup k' := by
  have h := Assoc.lookup_filter (l := c) (k := k') fun x => decide (x ≠ k)
  rw [erase, h]
  by_cases hk : k' = k <;> simp [hk]

lemma lookup_put (c : TouchCache) (k k' : String) (v : Nat × UInt64) :
    (c.put k v).lookup k' = if k' = k then some v else c.lookup k' := by
  rw [put, lookup_cons]
  by_cases hk : k' = k
  · simp [hk]
  · have hne : (k' == k) = false := by simpa using hk
    rw [hne, lookup_erase, if_neg hk, if_neg hk]

lemma lookup_remember {c : TouchCache} {k k' : String} {v w : Nat × UInt64}
    (h : (c.remember k v).lookup k' = some w) : (k' = k ∧ w = v) ∨
    (k' ≠ k ∧ c.lookup k' = some w) := by
  unfold remember at h
  split at h
  · by_cases hk : k' = k
    · subst hk
      exact .inl ⟨rfl, by simpa using h.symm⟩
    · have hne : (k' == k) = false := by simpa using hk
      simp [lookup_cons, hne] at h
  · rw [lookup_put] at h
    split at h
    next hk => exact .inl ⟨hk, (Option.some.inj h).symm⟩
    next hk => exact .inr ⟨hk, h⟩

lemma lookup_rename {c : TouchCache} {old new k : String} {w : Nat × UInt64}
    (h : (c.rename old new).lookup k = some w) :
    (k = new ∧ c.lookup old = some w) ∨ (k ≠ old ∧ c.lookup k = some w) := by
  unfold rename at h
  split at h
  next v hv =>
    rw [lookup_put] at h
    split at h
    next hk => exact .inl ⟨hk, hv.trans h⟩
    next hk =>
      rw [lookup_erase] at h
      split at h
      · exact absurd h (by simp)
      next hold => exact .inr ⟨hold, h⟩
  next hnone =>
    refine .inr ⟨?_, h⟩
    rintro rfl
    exact absurd (hnone.symm.trans h) (by simp)

end TouchCache

lemma cacheKey_inj {k k' : RowKey} (hk : unitSeparator ∉ k.2.toList)
    (hk' : unitSeparator ∉ k'.2.toList) (h : cacheKey k = cacheKey k') : k = k' := by
  have hlist : k.2.toList ++ unitSeparator :: k.1.toList = k'.2.toList ++ unitSeparator ::
      k'.1.toList := by
    have := congrArg String.toList h
    simpa [cacheKey, unitSeparator] using this
  -- the application is what stands before the first separator
  have h2 : k.2.toList = k'.2.toList := by
    rw [← takeWhile_append_separator hk k.1.toList, hlist, takeWhile_append_separator hk']
  have h1 : k.1.toList = k'.1.toList := by
    rw [h2] at hlist
    exact (cons.inj (append_cancel_left hlist)).2
  exact Prod.ext (String.toList_inj.1 h1) (String.toList_inj.1 h2)

namespace Table

variable {t : Table} {k : RowKey}

lemma row?_isSome : (t.row? k).isSome = true ↔ ∃ r ∈ t, r.key = k := by
  simp [row?, find?_isSome]

lemma row?_isNone : (t.row? k).isNone = true ↔ ∀ r ∈ t, r.key ≠ k := by
  simp [row?]

lemma mem_update {data : String} {exp : Int} {r : Row}
    (h : r ∈ t) (hk : r.key ≠ k) : r ∈ t.update k data exp := mem_map.2 ⟨r, h, if_neg hk⟩

lemma mem_update_self (data : String) (exp : Int)
    (h : ∃ r ∈ t, r.key = k) : ⟨k, exp, data⟩ ∈ t.update k data exp := by
  obtain ⟨r, hr, hk⟩ := h
  exact mem_map.2 ⟨r, hr, if_pos hk⟩

lemma keys_update (t : Table) (k : RowKey) (data : String) (exp : Int) :
    (t.update k data exp).map Row.key = t.map Row.key := by
  rw [update, map_map]
  refine map_congr_left fun r _ => ?_
  rw [comp_apply]
  split
  next h => exact h.symm
  next => rfl

lemma keys_rekey {old new : RowKey} (h : (t.map Row.key).Nodup)
    (hnew : old = new ∨ ∀ r ∈ t, r.key ≠ new) : ((t.rekey old new).map Row.key).Nodup := by
  rw [rekey, map_map]
  refine (nodup_map_iff_inj_on (Nodup.of_map _ h)).2 fun r hr r' hr' heq => ?_
  simp only [comp_apply] at heq
  have hinj : r.key = r'.key → r = r' := fun hk => inj_on_of_nodup_map h hr hr' hk
  by_cases hro : r.key = old <;> by_cases hro' : r'.key = old
  · exact hinj (hro.trans hro'.symm)
  · simp [hro, hro'] at heq
    rcases hnew with rfl | hnew
    · exact absurd heq.symm hro'
    · exact absurd heq.symm (hnew r' hr')
  · simp [hro, hro'] at heq
    rcases hnew with rfl | hnew
    · exact absurd heq hro
    · exact absurd heq (hnew r hr)
  · simp [hro, hro'] at heq
    exact hinj heq

end Table

lemma toI64_le (n : Nat) : toI64 n ≤ n := by
  unfold toI64
  split <;> omega

lemma toI64_of_lt {n : Nat} (h : n < 2 ^ 63) : toI64 n = n := if_pos h

variable {V ι : Type} {C : Codec V}

/-- The row has the content of the record and does not expire before it. -/
def Row.Holds (C : Codec V) (r : Row) (d : StoredSession V) : Prop :=
  (∃ d' ∈ C.fromJson r.data, d'.SameContent d) ∧ (d.expiresAt : Int) ≤ r.expiresAt

namespace DbCluster

structure Remembers (C : Codec V) (σ : DbCluster ι V) (k : RowKey) (v : Nat × UInt64) : Prop where
  plain : unitSeparator ∉ k.2.toList
  last : ∃ d ∈ σ.lastSet k, ∃ json ∈ C.toJson d, contentHash C d json = v.2
  row : ∃ r ∈ σ.table, r.key = k ∧ (v.1 : Int) ≤ r.expiresAt

structure Kept (C : Codec V) (σ : DbCluster ι V) : Prop where
  keys : (σ.table.map Row.key).Nodup
  row : ∀ k, ∀ d ∈ σ.lastSet k, ∃ r ∈ σ.table, r.key = k ∧ r.Holds C d
  cached : ∀ n ck v, (σ.nodes n).touchCache.lookup ck = some v → ∃ k, ck = cacheKey k ∧
    Remembers C σ k v

lemma kept_init (appNames : ι → String) : Kept C (init appNames : DbCluster ι V) :=
  ⟨nodup_nil, by simp [init], by simp [init]⟩

variable {σ : DbCluster ι V}

lemma Kept.row_unique (h : Kept C σ) {r r' : Row} (hr : r ∈ σ.table) (hr' : r' ∈ σ.table)
    (hk : r.key = r'.key) : r = r' := inj_on_of_nodup_map h.keys hr hr' hk

variable {n : ι} {σ' : DbCluster ι V} {k : RowKey} {data : StoredSession V} {app : String}
   {ok : Bool}

lemma Remembers.frame {v : Nat × UInt64} (h : Remembers C σ k v)
    (hlast : σ'.lastSet k = σ.lastSet k) (hrow : ∀ r ∈ σ.table, r.key = k → r ∈ σ'.table) :
    Remembers C σ' k v := by
  obtain ⟨r, hr, hk, hle⟩ := h.row
  exact ⟨h.plain, hlast ▸ h.last, r, hrow r hr hk, hk, hle⟩

lemma Kept.keepsLast (h : Kept C σ) (op : DbOp ι V) : σ.KeepsLast C op := by
  unfold KeepsLast
  split
  next n app id now =>
    intro d hd hnow
    obtain ⟨r, hr, hk, ⟨d', hd', hsame⟩, hexp⟩ := h.row _ d hd
    refine ⟨d', ?_, hsame⟩
    have hlive : toI64 now < r.expiresAt := by
      have := toI64_le now
      omega
    have hfind : (σ.table.find? fun r => r.key = σ.key n app id ∧ toI64 now < r.expiresAt) =
        some r := by
      cases hf : σ.table.find? fun r => r.key = σ.key n app id ∧ toI64 now < r.expiresAt with
      | none =>
        have := find?_eq_none.1 hf r hr
        simp [hk, hlive] at this
      | some r' =>
        have hr' := mem_of_find?_eq_some hf
        have hsel := find?_some hf
        have hk' : r'.key = σ.key n app id := (of_decide_eq_true hsel).1
        rw [h.row_unique hr hr' (hk.trans hk'.symm)]
    simp only [read, Table.selectData, hfind, Option.map_some, Option.bind_some, if_true]
    exact hd'
  next => trivial

/-! ## The operations -/

variable [DecidableEq ι]

lemma lookup_editCache {m : ι} {f : TouchCache → TouchCache} {ck : String} {v : Nat × UInt64}
    (h : (σ.editCache n f m).touchCache.lookup ck = some v) :
    (m = n ∧ (f (σ.nodes n).touchCache).lookup ck = some v) ∨
      (m ≠ n ∧ (σ.nodes m).touchCache.lookup ck = some v) := by
  rw [editCache, update_apply] at h
  split at h
  next hm => exact .inl ⟨hm, h⟩
  next hm => exact .inr ⟨hm, h⟩

lemma upsert_spec {t : Table} (k : RowKey) (json : String) (exp : Int)
    (hkeys : (t.map Row.key).Nodup) : (upsert t k json exp true true).2 = true ∧
      ((upsert t k json exp true true).1.map Row.key).Nodup ∧
      ⟨k, exp, json⟩ ∈ (upsert t k json exp true true).1 ∧
      ∀ r ∈ t, r.key ≠ k → r ∈ (upsert t k json exp true true).1 := by
  unfold upsert
  by_cases hrow : (t.row? k).isSome = true
  · rw [if_pos ⟨rfl, hrow⟩]
    exact ⟨rfl, by rw [Table.keys_update]; exact hkeys,
      Table.mem_update_self json exp (Table.row?_isSome.1 hrow),
        fun r hr hk => Table.mem_update hr hk⟩
  · have hnone : (t.row? k).isNone = true := by simpa using hrow
    rw [if_neg (fun h => hrow h.2), if_pos ⟨rfl, hnone⟩]
    refine ⟨rfl, nodup_cons.2 ⟨fun hin => ?_, hkeys⟩, mem_cons_self,
      fun r hr _ => mem_cons_of_mem _ hr⟩
    obtain ⟨r, hr, hk⟩ := mem_map.1 hin
    exact Table.row?_isNone.1 hnone r hr hk

section

variable (h : Kept C σ)
include h

lemma Kept.set_skipped {d : StoredSession V} {prevExp : Nat}
    (halone : σ.Alone n k) (hplain : unitSeparator ∉ k.2.toList) (hd : d ∈ σ.lastSet k)
    (hsame : d.SameContent data)
    (hrow : ∃ r ∈ σ.table, r.key = k ∧ (prevExp : Int) ≤ r.expiresAt)
    (hle : data.expiresAt ≤ prevExp)
    (hhash : ∀ v, (σ.nodes n).touchCache.lookup (cacheKey k) = some v →
      ∃ json ∈ C.toJson data, contentHash C data json = v.2) :
    Kept C { σ with lastSet := update σ.lastSet k (some data) } := by
  refine ⟨h.keys, fun k' d' hd' => ?_, fun m ck v hv => ?_⟩
  · simp only [update_apply] at hd'
    split at hd'
    next hk =>
      subst hk
      obtain rfl := Option.some.inj hd'
      obtain ⟨r, hr, hrk, ⟨d0, hd0, hsame0⟩, -⟩ := h.row _ d hd
      obtain ⟨r', hr', hrk', hexp⟩ := hrow
      obtain rfl := h.row_unique hr hr' (hrk.trans hrk'.symm)
      exact ⟨r, hr, hrk, ⟨d0, hd0, hsame0.trans hsame⟩, by omega⟩
    next => exact h.row k' d' hd'
  · obtain ⟨k', rfl, hrem⟩ := h.cached m ck v hv
    refine ⟨k', rfl, ?_⟩
    by_cases hk : k' = k
    · subst hk
      have hm : m = n := by
        by_contra hne
        exact absurd (halone m hne ▸ hv) (by simp)
      subst hm
      obtain ⟨json, hjson, hh⟩ := hhash v hv
      exact ⟨hplain, ⟨data, by simp, json, hjson, hh⟩, hrem.row⟩
    · exact hrem.frame (by simp [hk]) fun r hr _ => hr

lemma Kept.set_written {json : String}
    (halone : σ.Alone n k) (hplain : unitSeparator ∉ k.2.toList) (hjson : C.toJson data = some json)
    (hread : C.Readable data) (hexp : data.expiresAt < 2 ^ 63) {table : Table}
    (hkeys : (table.map Row.key).Nodup) (hnew : ⟨k, toI64 data.expiresAt, json⟩ ∈ table)
    (hold : ∀ r ∈ σ.table, r.key ≠ k → r ∈ table) : Kept C
      { table
        nodes := σ.editCache n (·.remember (cacheKey k) (data.expiresAt, contentHash C data json))
        lastSet := update σ.lastSet k (some data) } := by
  have hi64 := toI64_of_lt hexp
  refine ⟨hkeys, fun k' d' hd' => ?_, fun m ck v hv => ?_⟩
  · simp only [update_apply] at hd'
    split at hd'
    next hk =>
      subst hk
      obtain rfl := Option.some.inj hd'
      obtain ⟨d0, hd0, hsame⟩ := hread
      rw [hjson, Option.bind_some] at hd0
      exact ⟨_, hnew, rfl, ⟨d0, hd0, hsame⟩, by simp [hi64]⟩
    next hk =>
      obtain ⟨r, hr, hrk, hholds⟩ := h.row k' d' hd'
      exact ⟨r, hold r hr (fun hx => hk (hrk.symm.trans hx)), hrk, hholds⟩
  · have hother {k' : RowKey} (hk : k' ≠ k) (hrem : Remembers C σ k' v) :
        Remembers C
          { table
            nodes := σ.editCache n
              (·.remember (cacheKey k) (data.expiresAt, contentHash C data json))
            lastSet := update σ.lastSet k (some data) } k' v :=
      hrem.frame (by simp [hk]) fun r hr hrk => hold r hr (fun hx => hk (hrk.symm.trans hx))
    rcases lookup_editCache hv with ⟨rfl, hown⟩ | ⟨hm, hforeign⟩
    · rcases TouchCache.lookup_remember hown with ⟨rfl, rfl⟩ | ⟨hne, hbefore⟩
      · exact ⟨k, rfl, hplain, ⟨data, by simp, json, hjson, rfl⟩, _, hnew, rfl, by simp [hi64]⟩
      · obtain ⟨k', rfl, hrem⟩ := h.cached m ck v hbefore
        exact ⟨k', rfl, hother (fun hk => hne (hk ▸ rfl)) hrem⟩
    · obtain ⟨k', rfl, hrem⟩ := h.cached m ck v hforeign
      refine ⟨k', rfl, hother (fun hk => ?_) hrem⟩
      subst hk
      exact absurd ((halone m hm).symm.trans hforeign) (by simp)

lemma Kept.set {id : String} {updateOk insertOk : Bool}
    (hex : σ.Exclusive C (.set n app id data updateOk insertOk)) :
    Kept C (σ.set C n app id data updateOk insertOk) := by
  obtain ⟨halone, hplain, rfl, rfl, hread, hexp, hjson⟩ := hex
  unfold DbCluster.set
  cases hj : C.toJson data with
  | none =>
    obtain ⟨d', hd', -⟩ := hread
    rw [hj] at hd'
    exact absurd hd' (by simp)
  | some json =>
    obtain ⟨hcollide, hthrottle⟩ := hjson json hj
    dsimp only
    cases ht : σ.throttle? n (σ.key n app id) data (contentHash C data json) with
    | some prevExp =>
      -- what is remembered is the hash and the expiry of the record set last
      have hlook : ∃ v, (σ.nodes n).touchCache.lookup (cacheKey (σ.key n app id)) = some v ∧
          v.1 = prevExp ∧ v.2 = contentHash C data json := by
        unfold throttle? at ht
        split at ht
        next pe ph hv =>
          split at ht
          next hcond => exact ⟨(pe, ph), hv, Option.some.inj ht, hcond.1⟩
          next => exact absurd ht (by simp)
        next => exact absurd ht (by simp)
      obtain ⟨v, hv, rfl, hvhash⟩ := hlook
      obtain ⟨k', hkk, hrem⟩ := h.cached n _ v hv
      obtain rfl := cacheKey_inj hplain hrem.plain hkk
      obtain ⟨d, hd, json', hjson', hhash⟩ := hrem.last
      refine h.set_skipped halone hplain hd (hcollide d hd json' hjson' (hhash.trans hvhash))
        hrem.row
        (hthrottle _ ht) fun v' hv' => ⟨json, hj, ?_⟩
      rw [← hvhash, Option.some.inj (hv.symm.trans hv')]
    | none =>
      obtain ⟨hok, hkeys, hnew, hold⟩ := upsert_spec (σ.key n app id) json
        (toI64 data.expiresAt) h.keys
      simp [hok]
      exact h.set_written halone hplain hj hread hexp hkeys hnew hold

lemma Kept.drop (gone : RowKey → Prop) (halone : ∀ k, gone k → σ.Alone n k)
    (hkeys : (σ'.table.map Row.key).Nodup)
    (hrows : ∀ r ∈ σ.table, ¬gone r.key → r ∈ σ'.table)
    (hlast : ∀ k, σ'.lastSet k = none ∨ (¬gone k ∧ σ'.lastSet k = σ.lastSet k))
    (hkept : ∀ k, ¬gone k → σ'.lastSet k = σ.lastSet k)
    (hcache : ∀ m ck v, (σ'.nodes m).touchCache.lookup ck = some v →
      (σ.nodes m).touchCache.lookup ck = some v ∧ (m = n → ∀ k, gone k → ck ≠ cacheKey k)) :
    Kept C σ' := by
  refine ⟨hkeys, fun k d hd => ?_, fun m ck v hv => ?_⟩
  · rcases hlast k with hnone | ⟨hk, hsame⟩
    · rw [hnone] at hd
      exact absurd hd (by simp)
    · obtain ⟨r, hr, rfl, hholds⟩ := h.row k d (hsame ▸ hd)
      exact ⟨r, hrows r hr hk, rfl, hholds⟩
  · obtain ⟨hbefore, hown⟩ := hcache m ck v hv
    obtain ⟨k, rfl, hrem⟩ := h.cached m ck v hbefore
    have hk : ¬gone k := by
      intro hgone
      by_cases hm : m = n
      · exact hown hm k hgone rfl
      · exact absurd ((halone k hgone m hm).symm.trans hbefore) (by simp)
    exact ⟨k, rfl, hrem.frame (hkept k hk) fun r hr hrk => hrows r hr (hrk ▸ hk)⟩

lemma Kept.remove {id : String} (halone : σ.Alone n (σ.key n app id)) :
    Kept C (σ.remove n app id ok) := by
  refine h.drop (fun k => k = σ.key n app id) (fun k hk => hk ▸ halone) ?_
    (fun r hr hk => ?_) (fun k => ?_) (fun k hk => ?_) fun m ck v hv => ?_
  · unfold DbCluster.remove
    dsimp only
    split
    · exact h.keys.sublist (filter_sublist.map _)
    · exact h.keys
  · unfold DbCluster.remove
    dsimp only
    split
    · exact mem_filter.2 ⟨hr, by simpa using hk⟩
    · exact hr
  · simp only [DbCluster.remove, update_apply]
    split
    next => exact .inl rfl
    next hk => exact .inr ⟨hk, rfl⟩
  · simp only [DbCluster.remove, update_apply, if_neg hk]
  · rcases lookup_editCache hv with ⟨rfl, hown⟩ | ⟨hm, hforeign⟩
    · have herase := TouchCache.lookup_erase (σ.nodes m).touchCache (cacheKey (σ.key m app id)) ck
      rw [TouchCache.erase, hown] at herase
      split at herase
      · exact absurd herase (by simp)
      next hne => exact ⟨herase.symm, fun _ k hk => hk ▸ hne⟩
    · exact ⟨hforeign, fun hx => absurd hx hm⟩

lemma Kept.takeExpired {now : Nat} {deleteOk : RowKey → Bool}
    (halone : ∀ k ∈ σ.claimed now ok deleteOk, σ.Alone n k) :
    Kept C (σ.takeExpired n now ok deleteOk) := by
  refine h.drop (· ∈ σ.claimed now ok deleteOk) halone
    (h.keys.sublist (filter_sublist.map _))
    (fun r hr hk => mem_filter.2 ⟨hr, by simpa using hk⟩) (fun k => ?_) (fun k hk => ?_)
    fun m ck v hv => ?_
  · simp only [DbCluster.takeExpired]
    split
    next => exact .inl rfl
    next hk => exact .inr ⟨hk, rfl⟩
  · simp only [DbCluster.takeExpired, if_neg hk]
  · rcases lookup_editCache hv with ⟨rfl, hown⟩ | ⟨hm, hforeign⟩
    · rw [Assoc.lookup_filter (p := fun x => decide (x ∉ (σ.claimed now ok deleteOk).map cacheKey))]
        at hown
      split at hown
      next hp =>
        refine ⟨hown, fun _ k hk hck => of_decide_eq_true hp ?_⟩
        exact hck ▸ mem_map_of_mem hk
      next => exact absurd hown (by simp)
    · exact ⟨hforeign, fun hx => absurd hx hm⟩

lemma Kept.moved {old new : RowKey} (halone : σ.Alone n old)
    (halone' : σ.Alone n new) (hplain : unitSeparator ∉ old.2.toList)
    (hplain' : unitSeparator ∉ new.2.toList) (hfree : ∀ r ∈ σ.table, r.key ≠ new) : Kept C
      { table := σ.table.rekey old new
        nodes := σ.editCache n (·.rename (cacheKey old) (cacheKey new))
        lastSet := update (update σ.lastSet old none) new (σ.lastSet old) } := by
  have hmoved {r : Row} (hr : r ∈ σ.table) (hk : r.key = old) :
      { r with key := new } ∈ σ.table.rekey old new := mem_map.2 ⟨r, hr, if_pos hk⟩
  have hstays {r : Row} (hr : r ∈ σ.table) (hk : r.key ≠ old) : r ∈ σ.table.rekey old new :=
    mem_map.2 ⟨r, hr, if_neg hk⟩
  refine ⟨Table.keys_rekey h.keys (.inr hfree), fun k d hd => ?_, fun m ck v hv => ?_⟩
  · simp only [update_apply] at hd
    split at hd
    next hk =>
      obtain ⟨r, hr, hrk, hholds⟩ := h.row old d hd
      exact ⟨_, hmoved hr hrk, hk.symm, hholds⟩
    next =>
      split at hd
      · exact absurd hd (by simp)
      next hk =>
        obtain ⟨r, hr, rfl, hholds⟩ := h.row k d hd
        exact ⟨r, hstays hr hk, rfl, hholds⟩
  · have hother {k : RowKey} (hold : k ≠ old) (hnew : k ≠ new) (hrem : Remembers C σ k v) :
        Remembers C
          { table := σ.table.rekey old new
            nodes := σ.editCache n (·.rename (cacheKey old) (cacheKey new))
            lastSet := update (update σ.lastSet old none) new (σ.lastSet old) } k v :=
      hrem.frame (by simp [hold, hnew]) fun r hr hrk => hstays hr (hrk ▸ hold)
    rcases lookup_editCache hv with ⟨rfl, hown⟩ | ⟨hm, hforeign⟩
    · rcases TouchCache.lookup_rename hown with ⟨rfl, hbefore⟩ | ⟨hck, hbefore⟩
      · -- the entry of the old id goes with the row
        obtain ⟨k, hkk, hrem⟩ := h.cached m _ v hbefore
        obtain rfl := cacheKey_inj hplain hrem.plain hkk
        obtain ⟨r, hr, hrk, hle⟩ := hrem.row
        exact ⟨new, rfl, hplain', by simpa using hrem.last, _, hmoved hr hrk, rfl, hle⟩
      · obtain ⟨k, rfl, hrem⟩ := h.cached m ck v hbefore
        refine ⟨k, rfl, hother (fun hk => hck (hk ▸ rfl)) (fun hk => ?_) hrem⟩
        obtain ⟨r, hr, hrk, -⟩ := hrem.row
        exact hfree r hr (hrk.trans hk)
    · obtain ⟨k, rfl, hrem⟩ := h.cached m ck v hforeign
      refine ⟨k, rfl, hother (fun hk => ?_) (fun hk => ?_) hrem⟩
      · exact absurd ((hk ▸ halone m hm).symm.trans hforeign) (by simp)
      · exact absurd ((hk ▸ halone' m hm).symm.trans hforeign) (by simp)

end

omit [DecidableEq ι] in
lemma Kept.of_cache (h : Kept C σ) (htable : σ'.table = σ.table)
    (hlast : σ'.lastSet = σ.lastSet)
    (hcache : ∀ m ck v, (σ'.nodes m).touchCache.lookup ck = some v →
      (σ.nodes m).touchCache.lookup ck = some v) : Kept C σ' := by
  refine ⟨htable ▸ h.keys, fun k d hd => ?_, fun m ck v hv => ?_⟩
  · rw [htable]
    exact h.row k d (hlast ▸ hd)
  · obtain ⟨k, hk, hrem⟩ := h.cached m ck v (hcache m ck v hv)
    exact ⟨k, hk, hrem.frame (by rw [hlast]) fun r hr _ => htable ▸ hr⟩

lemma Kept.rotate (h : Kept C σ) {oldId newId : String}
    (hex : σ.Exclusive C (.rotate n app oldId newId ok)) :
    Kept C (σ.rotate n app oldId newId ok) := by
  obtain ⟨halone, halone', hplain, hok⟩ := hex
  have hplain' : unitSeparator ∉ (σ.key n app newId).2.toList := hplain
  unfold DbCluster.rotate
  simp only [hok, if_true]
  generalize σ.key n app oldId = old at *
  generalize σ.key n app newId = new at *
  by_cases hrow : (σ.table.row? old).isSome = true
  · rw [if_pos hrow]
    by_cases hne : old = new
    · subst hne
      refine h.of_cache ?_ (by simp) fun m ck v hv => ?_
      · refine (map_congr_left fun r _ => ?_).trans (map_id _)
        split
        next hk => rw [← hk]; rfl
        next => rfl
      · rcases lookup_editCache hv with ⟨rfl, hown⟩ | ⟨-, hforeign⟩
        · rcases TouchCache.lookup_rename hown with ⟨rfl, hbefore⟩ | ⟨-, hbefore⟩
          iterate 2 exact hbefore
        · exact hforeign
    · have hfree : ∀ r ∈ σ.table, r.key ≠ new := by
        have hnone : (σ.table.row? old).isNone = false := by simpa using hrow
        simp only [rotateOk, hnone, hne, decide_false, Bool.false_or, Bool.and_eq_true] at hok
        exact Table.row?_isNone.1 hok.2
      exact h.moved halone halone' hplain hplain' hfree
  · -- there is nothing to move, in the table and in the cache
    rw [if_neg hrow]
    have hnone : ∀ r ∈ σ.table, r.key ≠ old := by
      intro r hr hk
      exact hrow (Table.row?_isSome.2 ⟨r, hr, hk⟩)
    refine h.of_cache ?_ rfl fun m ck v hv => ?_
    · refine (map_congr_left fun r hr => ?_).trans (map_id _)
      rw [if_neg (hnone r hr)]
      rfl
    · rcases lookup_editCache hv with ⟨rfl, hown⟩ | ⟨-, hforeign⟩
      · rcases TouchCache.lookup_rename hown with ⟨-, hbefore⟩ | ⟨-, hbefore⟩
        · obtain ⟨k, hkk, hrem⟩ := h.cached m _ v hbefore
          obtain rfl := cacheKey_inj hplain hrem.plain hkk
          obtain ⟨r, hr, hrk, -⟩ := hrem.row
          exact absurd hrk (hnone r hr)
        · exact hbefore
      · exact hforeign

lemma Kept.step (h : Kept C σ) (op : DbOp ι V) (hop : σ.Exclusive C op) : Kept C (σ.step C op) := by
  cases op with
  | get n app id now ok => exact h
  | set n app id data updateOk insertOk => exact h.set hop
  | remove n app id ok => exact h.remove hop
  | rotate n app oldId newId ok => exact h.rotate hop
  | takeExpired n now ok deleteOk => exact h.takeExpired hop

/-- **The last write is found.** In a run of exclusive steps, by any number of nodes, a `get` of a
session that has not expired answers the variables and authentication of the record that was last
set for it. -/
theorem keepsLast_of_exclusive (C : Codec V) (appNames : ι → String) {ops : List (DbOp ι V)}
    (h : EachStep (DbCluster.step C) (DbCluster.Exclusive C) (init appNames) ops) :
    EachStep (DbCluster.step C) (DbCluster.KeepsLast C) (init appNames) ops :=
  eachStep_of_invariant (fun _ op hs hop => ⟨hs.keepsLast op, hs.step op hop⟩)
    (kept_init appNames) h

end DbCluster

/-- Records with one flag as their variables, written as one letter; the times are not kept. -/
def flagCodec : Codec Bool where
  toJson d := some (if d.vars then "t" else "f")
  fromJson j := some ⟨⟨0, 0, 0, none, [], ""⟩, j = "t"⟩

def flagRecord (flag : Bool) : StoredSession Bool := ⟨⟨100, 100, 1800, none, [], "shop"⟩, flag⟩

def setAndRead : List (DbOp Bool Bool) :=
  [.set false "shop" "s" (flagRecord true) true true, .get true "shop" "s" 200 true]

theorem setAndRead_keeps :
    EachStep (DbCluster.step flagCodec) (DbCluster.KeepsLast flagCodec)
    (.init fun _ => "") setAndRead := by
  refine DbCluster.keepsLast_of_exclusive flagCodec (fun _ => "") ⟨?_, trivial, trivial⟩
  refine ⟨fun m _ => rfl, by decide, rfl, rfl, ⟨_, rfl, rfl, rfl, rfl⟩, by decide, ?_⟩
  intro json _
  exact ⟨fun d hd => (nomatch hd), fun e he => (nomatch he)⟩

/-- The first node sets the session, the second changes it, and the first sets it again as
before. -/
def backAndForth : List (DbOp Bool Bool) :=
  [.set false "shop" "s" (flagRecord true) true true,
   .set true "shop" "s" (flagRecord false) true true,
     .set false "shop" "s" (flagRecord true) true true,
   .get true "shop" "s" 200 true]

/-- The last write was skipped, and the change of the second node is found. -/
theorem backAndForth_loses :
    ¬EachStep (DbCluster.step flagCodec) (DbCluster.KeepsLast flagCodec)
    (.init fun _ => "") backAndForth := by
  rintro ⟨-, -, -, h, -⟩
  obtain ⟨d', hd', hsame⟩ := h (flagRecord true) (by decide +kernel) (by decide)
  have hfound : (⟨⟨0, 0, 0, none, [], ""⟩, false⟩ : StoredSession Bool) = d' :=
    Option.some.inj (Eq.trans (by decide +kernel) hd')
  exact absurd (hfound ▸ hsame) (by decide +kernel)

end RustCfml.Session
