import RustCfml.Vm.EscapedLocal

/-!
# When a sync loses an update

After a sync the two replicas should hold the same locals, and a key that only one side wrote or
deleted since the last sync should be as that side left it. **When both did, it copies every entry
of the handle into the frame, stale ones included**, and then makes the handle equal to the frame:
what the frame wrote to a key the handle also has is overwritten with the old value, and what either
side deleted comes back.
-/

namespace RustCfml.Vm

open List Option VersionedMap

attribute [local simp] eqIgnoreAsciiCase

lemma toLower_eq_underscore_iff (c : Char) : c.toLower = '_' ↔ c = '_' := by
  constructor
  · intro h
    unfold Char.toLower at h
    split at h
    · next hupper =>
      have hcode := congrArg Char.toNat h
      simp only [UInt32.le_iff_toNat_le, ge_iff_le] at hupper
      have hA : 'A'.val.toNat = 65 := rfl
      have hZ : 'Z'.val.toNat = 90 := rfl
      have hsum : (c.val.toNat + 32) % 2 ^ 32 = 95 := hcode
      omega
    · exact h
  · rintro rfl
    rfl

lemma take_two_fold (k : String) : (asciiFold k).take 2 = ['_', '_'] ↔
    k.toList.take 2 = ['_', '_'] := by
  unfold asciiFold
  match k.toList with
  | [] => simp
  | [c] => simp
  | c :: d :: cs => simp [toLower_eq_underscore_iff]

lemma isBridgeKey_congr {a b : String} (h : asciiFold a = asciiFold b) :
    isBridgeKey a = isBridgeKey b := by
  have htake : (a.toList.take 2 == ['_', '_']) = (b.toList.take 2 == ['_', '_']) := by
    rw [Bool.eq_iff_iff, beq_iff_eq, beq_iff_eq, ← take_two_fold a, ← take_two_fold b, h]
  rw [isBridgeKey, isBridgeKey, eqIgnoreAsciiCase, eqIgnoreAsciiCase, eqIgnoreAsciiCase,
    eqIgnoreAsciiCase, h, htake]

namespace InheritedKeys

structure SameAt (key : List Char) (i j : InheritedKeys) : Prop where
  structural : i.structural.filter (asciiFold · == key) = j.structural.filter (asciiFold · == key)
  params : i.params.filter (asciiFold · == key) = j.params.filter (asciiFold · == key)
  data : i.data.filter (asciiFold · == key) = j.data.filter (asciiFold · == key)

lemma SameAt.refl (key : List Char) (i : InheritedKeys) : SameAt key i i := ⟨rfl, rfl, rfl⟩

variable {k : String} {i : InheritedKeys}

variable {xs : List String} {j : InheritedKeys} {key : List Char}

lemma any_fold_congr {ys : List String}
    (h : xs.filter (asciiFold · == asciiFold k) = ys.filter (asciiFold · == asciiFold k)) :
    xs.any (eqIgnoreAsciiCase · k) = ys.any (eqIgnoreAsciiCase · k) := by
  have hany : ∀ zs : List String, zs.any (eqIgnoreAsciiCase · k) =
      !(zs.filter (asciiFold · == asciiFold k)).isEmpty := by
    intro zs
    rw [Bool.eq_iff_iff, List.any_eq_true, Bool.not_eq_true', ← Bool.not_eq_true, List.isEmpty_iff,
      filter_eq_nil_iff]
    simp
  rw [hany, hany, h]

lemma SameAt.containsKey (h : SameAt (asciiFold k) i j) : i.containsKey k = j.containsKey k := by
  have hstructural : i.structural.contains k = j.structural.contains k := by
    have hmem : ∀ zs : List String,
        zs.contains k = (zs.filter (asciiFold · == asciiFold k)).contains k := by
      intro zs
      rw [Bool.eq_iff_iff, contains_iff_mem, contains_iff_mem, mem_filter]
      simp
    rw [hmem, hmem j.structural, h.structural]
  rw [InheritedKeys.containsKey, InheritedKeys.containsKey, hstructural, any_fold_congr h.params,
    any_fold_congr h.data]

lemma filter_eraseP_other (h : asciiFold k ≠ key) :
    (xs.eraseP (eqIgnoreAsciiCase · k)).filter (asciiFold · == key) =
    xs.filter (asciiFold · == key) := by
  induction xs with
  | nil => rfl
  | cons x xs ih =>
    by_cases hx : asciiFold x = asciiFold k
    · have hne : ¬ asciiFold x = key := fun hkey => h (hx.symm.trans hkey)
      rw [eraseP_cons_of_pos (p := (eqIgnoreAsciiCase · k)) (eqIgnoreAsciiCase_iff.2 hx),
        filter_cons_of_neg (by simpa using hne)]
    · rw [eraseP_cons_of_neg (p := (eqIgnoreAsciiCase · k)) (by simpa using hx), filter_cons,
        filter_cons, ih]

lemma filter_eraseP_self (xs : List String) (k : String) :
    (xs.eraseP (eqIgnoreAsciiCase · k)).filter (asciiFold · == asciiFold k) =
      (xs.filter (asciiFold · == asciiFold k)).tail := by
  induction xs with
  | nil => rfl
  | cons x xs ih =>
    by_cases hx : asciiFold x = asciiFold k
    · rw [eraseP_cons_of_pos (p := (eqIgnoreAsciiCase · k)) (eqIgnoreAsciiCase_iff.2 hx),
        filter_cons_of_pos (by simpa using hx)]
      rfl
    · rw [eraseP_cons_of_neg (p := (eqIgnoreAsciiCase · k)) (by simpa using hx),
        filter_cons_of_neg (by simpa using hx), filter_cons_of_neg (by simpa using hx), ih]

lemma sameAt_removeCiKey (i : InheritedKeys) (h : asciiFold k ≠ key) :
    SameAt key (i.removeCiKey k) i := by
  have hstructural : (i.structural.filter fun s => !eqIgnoreAsciiCase s k).filter
      (asciiFold · == key) = i.structural.filter (asciiFold · == key) := by
    rw [List.filter_filter]
    refine filter_congr fun s _ => ?_
    by_cases hs : asciiFold s = key
    · simp [hs, Ne.symm h]
    · simp [hs]
  rw [removeCiKey]
  split
  · exact ⟨hstructural, filter_eraseP_other h, rfl⟩
  · exact ⟨hstructural, rfl, filter_eraseP_other h⟩

lemma SameAt.removeCiKey (h : SameAt (asciiFold k) i j) :
    SameAt (asciiFold k) (i.removeCiKey k) (j.removeCiKey k) := by
  have hstructural : ∀ zs : List String, (zs.filter fun s => !eqIgnoreAsciiCase s k).filter
      (asciiFold · == asciiFold k) = [] := by
    intro zs
    rw [List.filter_filter, filter_eq_nil_iff]
    simp
  rw [InheritedKeys.removeCiKey, InheritedKeys.removeCiKey, any_fold_congr h.params]
  split
  · refine ⟨(hstructural _).trans (hstructural _).symm, ?_, h.data⟩
    rw [filter_eraseP_self, filter_eraseP_self, h.params]
  · refine ⟨(hstructural _).trans (hstructural _).symm, h.params, ?_⟩
    rw [filter_eraseP_self, filter_eraseP_self, h.data]

lemma containsKey_of_removeCiKey {k' : String}
    (h : (i.removeCiKey k).containsKey k' = true) : i.containsKey k' = true := by
  have herase : ∀ zs : List String,
    (zs.eraseP (eqIgnoreAsciiCase · k)).any (eqIgnoreAsciiCase · k') = true →
      zs.any (eqIgnoreAsciiCase · k') = true := by
    intro zs hany
    obtain ⟨z, hz, hzk⟩ := any_eq_true.1 hany
    exact any_eq_true.2 ⟨z, mem_of_mem_eraseP hz, hzk⟩
  have hfilter : (i.structural.filter fun s => !eqIgnoreAsciiCase s k).contains k' = true →
      i.structural.contains k' = true := by
    intro hmem
    exact contains_iff_mem.2 (mem_filter.1 (contains_iff_mem.1 hmem)).1
  by_cases hname : structuralNames.contains k' = true
  · rw [containsKey, if_pos hname] at h ⊢
    rw [removeCiKey] at h
    split at h <;> exact hfilter h
  · rw [containsKey, if_neg hname, Bool.or_eq_true] at h ⊢
    rw [removeCiKey] at h
    split at h
    · exact h.imp_left (herase _)
    · exact h.imp_right (herase _)

end InheritedKeys

namespace LocalFrame

def localGet? (f : LocalFrame) (k : String) : Option CfmlValue := f.visible.get? k

lemma localGet?_eq (f : LocalFrame) (k : String) : f.localGet? k =
      if (f.locals.getKey? k).any (localViewVisible f.inherited) then f.locals.get? k else none :=
  ValueMap.get?_filter_keys f.locals.distinct (localViewVisible f.inherited) k

def reclaimed (f : LocalFrame) (k : String) : InheritedKeys :=
  if f.isParam k || f.inherited.containsKey k then f.inherited.removeCiKey k else f.inherited

/-- The frame stores the key under a spelling that is still inherited then, so that the value it
takes from the handle does not show. -/
def masks (f : LocalFrame) (k : String) : Bool :=
  (f.reclaimed k).containsKey ((f.locals.getKey? k).getD k)

lemma asciiFold_stored (f : LocalFrame) (k : String) :
    asciiFold ((f.locals.getKey? k).getD k) = asciiFold k := by
  cases h : f.locals.getKey? k with
  | none => rfl
  | some k' => exact ValueMap.asciiFold_getKey? h

structure SameFrameAt (k : String) (f g : LocalFrame) : Prop where
  params : f.params = g.params
  key : f.locals.getKey? k = g.locals.getKey? k
  value : f.locals.get? k = g.locals.get? k
  inherited : InheritedKeys.SameAt (asciiFold k) f.inherited g.inherited

variable {k hk : String}

variable {f g : LocalFrame} {entries : ValueMap CfmlValue}

lemma SameFrameAt.localGet? (h : SameFrameAt k f g) : f.localGet? k = g.localGet? k := by
  rw [localGet?_eq, localGet?_eq, h.key, h.value]
  cases hkey : g.locals.getKey? k with
  | none => rfl
  | some k' =>
    have hfold := ValueMap.asciiFold_getKey? hkey
    have hcontains : f.inherited.containsKey k' = g.inherited.containsKey k' :=
      InheritedKeys.SameAt.containsKey (hfold ▸ h.inherited)
    have hvisible : localViewVisible f.inherited k' = localViewVisible g.inherited k' := by
      rw [localViewVisible, localViewVisible, hcontains]
    rw [any_some, any_some, hvisible]

lemma SameFrameAt.masks (hfold : asciiFold hk = asciiFold k) (h : SameFrameAt k f g) :
    f.masks hk = g.masks hk := by
  have hkey : f.locals.getKey? hk = g.locals.getKey? hk := by
    have := h.key
    rwa [getKey?, getKey?, ← ValueMap.getKey?_congr hfold, ← ValueMap.getKey?_congr hfold] at this
  have hinherited : InheritedKeys.SameAt (asciiFold hk) f.inherited g.inherited :=
    hfold ▸ h.inherited
  have hparam : f.isParam hk = g.isParam hk := by rw [isParam, isParam, h.params]
  have hreclaimed : InheritedKeys.SameAt (asciiFold hk) (f.reclaimed hk) (g.reclaimed hk) := by
    rw [reclaimed, reclaimed, hparam, hinherited.containsKey]
    split
    · exact hinherited.removeCiKey
    · exact hinherited
  have hstored := g.asciiFold_stored hk
  rw [LocalFrame.masks, LocalFrame.masks, hkey]
  exact InheritedKeys.SameAt.containsKey (hstored ▸ hreclaimed)

lemma ne_bridge {b : String} (hk : isBridgeKey k = false) (hb : isBridgeKey b = true) :
    ¬ asciiFold b = asciiFold k := by
  intro h
  rw [isBridgeKey_congr h, hk] at hb
  cases hb

lemma sameFrameAt_materialiseArguments (f : LocalFrame) (hk : isBridgeKey k = false) :
    SameFrameAt k f.materialiseArguments f := by
  rw [materialiseArguments]
  split
  · exact ⟨rfl, rfl, rfl, .refl _ _⟩
  · have hne := ne_bridge hk (show isBridgeKey argumentsScopeKey = true by decide)
    refine ⟨rfl, ?_, ?_, .refl _ _⟩
    · rw [getKey?_insert, if_neg hne]
    · rw [get?_insert, if_neg hne]

def beforeInsert (f : LocalFrame) (k : String) : LocalFrame :=
  let f₁ := if f.isParam k then f.materialiseArguments else f
  if f.isParam k || f.inherited.containsKey k then f₁.declareLocal k else f₁

lemma beforeInsert_spec (f : LocalFrame) (hk : String) (hlocal : isBridgeKey k = false) :
    (f.beforeInsert hk).params = f.params ∧ (f.beforeInsert hk).locals.getKey? k =
    f.locals.getKey? k ∧
      (f.beforeInsert hk).locals.get? k = f.locals.get? k ∧
      (f.beforeInsert hk).inherited = f.reclaimed hk := by
  have hargs : SameFrameAt k (if f.isParam hk then f.materialiseArguments else f) f := by
    split
    · exact f.sameFrameAt_materialiseArguments hlocal
    · exact ⟨rfl, rfl, rfl, .refl _ _⟩
  have hinherited : (if f.isParam hk then f.materialiseArguments else f).inherited =
      f.inherited := by
    split
    · rw [materialiseArguments]
      split <;> rfl
    · rfl
  rw [beforeInsert, reclaimed]
  split
  · refine ⟨hargs.params, hargs.key, hargs.value, ?_⟩
    show (LocalFrame.inherited _).removeCiKey hk = _
    rw [hinherited]
  · exact ⟨hargs.params, hargs.key, hargs.value, hinherited⟩

lemma pullEntry_eq (f : LocalFrame) (v : CfmlValue) (h : isBridgeKey hk = false) :
    f.pullEntry hk v =
    { f.beforeInsert hk with locals := (f.beforeInsert hk).locals.insert hk v } := by
  rw [pullEntry, h]
  rfl

lemma sameFrameAt_pullEntry (f : LocalFrame) (v : CfmlValue)
    (hlocal : isBridgeKey k = false) (hne : ¬ asciiFold hk = asciiFold k) :
    SameFrameAt k (f.pullEntry hk v) f := by
  cases hbridge : isBridgeKey hk with
  | true =>
    rw [pullEntry, hbridge]
    exact ⟨rfl, rfl, rfl, .refl _ _⟩
  | false =>
    obtain ⟨hparams, hkey, hvalue, hinherited⟩ := f.beforeInsert_spec hk hlocal
    rw [pullEntry_eq f v hbridge]
    refine ⟨hparams, ?_, ?_, ?_⟩
    · rw [getKey?_insert, if_neg hne, hkey]
    · rw [get?_insert, if_neg hne, hvalue]
    · show InheritedKeys.SameAt _ (f.beforeInsert hk).inherited _
      rw [hinherited, reclaimed]
      split
      · exact InheritedKeys.sameAt_removeCiKey _ hne
      · exact .refl _ _

lemma localGet?_pullEntry_self (f : LocalFrame) (v : CfmlValue)
    (hlocal : isBridgeKey k = false) (hfold : asciiFold hk = asciiFold k) :
    (f.pullEntry hk v).localGet? k = if f.masks hk then none else some v := by
  have hbridge : isBridgeKey hk = false := (isBridgeKey_congr hfold).trans hlocal
  obtain ⟨-, hkey, -, hinherited⟩ := f.beforeInsert_spec hk hlocal
  have hstored : f.locals.getKey? k = f.locals.getKey? hk := (ValueMap.getKey?_congr hfold).symm
  have hvisible : isBridgeKey ((f.locals.getKey? hk).getD hk) = false :=
    (isBridgeKey_congr (f.asciiFold_stored hk)).trans hbridge
  rw [pullEntry_eq f v hbridge, localGet?_eq]
  dsimp only
  rw [getKey?_insert, if_pos hfold, get?_insert, if_pos hfold, hkey,
    hstored, hinherited, any_some, localViewVisible, hvisible, ← masks]
  cases f.masks hk <;> rfl

lemma localGet?_foldl_pullEntry (hentries : entries.Distinct) (f : LocalFrame)
    (hlocal : isBridgeKey k = false) :
    (entries.foldl (fun f e => f.pullEntry e.1 e.2) f).localGet? k =
      match entries.find? (fun e => eqIgnoreAsciiCase e.1 k) with
      | some e => if f.masks e.1 then none else some e.2
      | none => f.localGet? k := by
  induction entries generalizing f with
  | nil => rfl
  | cons e entries ih =>
    obtain ⟨hnew, hrest⟩ := nodup_cons.1 hentries
    rw [foldl_cons, ih hrest, find?_cons]
    by_cases hk : asciiFold e.1 = asciiFold k
    · -- no later entry touches this key
      have hnone : entries.find? (fun e => eqIgnoreAsciiCase e.1 k) = none := by
        rw [find?_eq_none]
        intro e' he' hmatch
        have hfold : asciiFold e'.1 = asciiFold e.1 :=
          (eqIgnoreAsciiCase_iff.1 hmatch).trans hk.symm
        exact hnew (mem_map.2 ⟨e', he', hfold⟩)
      rw [hnone, eqIgnoreAsciiCase_iff.2 hk]
      exact f.localGet?_pullEntry_self e.2 hlocal hk
    · have hskip : eqIgnoreAsciiCase e.1 k = false := by simpa using hk
      have hsame := f.sameFrameAt_pullEntry e.2 hlocal hk
      rw [hskip]
      cases hfind : entries.find? (fun e => eqIgnoreAsciiCase e.1 k) with
      | none => exact hsame.localGet?
      | some e' =>
        have hfold : asciiFold e'.1 = asciiFold k := by
          have hmatch := find?_some hfind
          exact eqIgnoreAsciiCase_iff.1 hmatch
        exact congrArg (fun b : Bool => if b then none else some e'.2) (hsame.masks hfold)

lemma localGet?_eq_none_of_masks (f : LocalFrame) (hfold : asciiFold hk = asciiFold k)
    (h : f.masks hk = true) : f.localGet? k = none := by
  have hinherited : f.inherited.containsKey ((f.locals.getKey? hk).getD hk) = true := by
    rw [masks, reclaimed] at h
    split at h
    · exact InheritedKeys.containsKey_of_removeCiKey h
    · exact h
  have hstored : f.locals.getKey? k = f.locals.getKey? hk := (ValueMap.getKey?_congr hfold).symm
  rw [localGet?_eq, hstored]
  cases hkey : f.locals.getKey? hk with
  | none => rfl
  | some k' =>
    rw [hkey, getD_some] at hinherited
    simp [localViewVisible, hinherited]

lemma mem_goneKeys_iff (f : LocalFrame) (entries : ValueMap CfmlValue) (k : String) :
    asciiFold k ∈ (f.goneKeys entries).map asciiFold ↔ (f.localGet? k).isSome = true ∧
    entries.get? k = none := by
  have habsent : ∀ k' : String, asciiFold k' = asciiFold k →
      ((!entries.any fun e => eqIgnoreAsciiCase e.1 k') = true ↔ entries.get? k = none) := by
    intro k' hfold
    rw [ValueMap.get?_eq_none_iff, ← hfold, Bool.not_eq_true', ← Bool.not_eq_true, List.any_eq_true]
    simp
  rw [List.mem_map]
  constructor
  · rintro ⟨k', hmem, hfold⟩
    obtain ⟨hkeys, hgone⟩ := mem_filter.1 hmem
    rw [Bool.and_eq_true, habsent k' hfold] at hgone
    refine ⟨?_, hgone.2⟩
    obtain ⟨e, he, rfl⟩ := List.mem_map.1 hkeys
    have hview : asciiFold k ∈ f.visible.map fun e => asciiFold e.1 := by
      rw [← hfold]
      exact List.mem_map_of_mem (mem_filter.2 ⟨he, hgone.1⟩)
    rw [isSome_iff_ne_none]
    exact fun hnone => ValueMap.get?_eq_none_iff.1 hnone hview
  · rintro ⟨hsome, hnone⟩
    obtain ⟨v, hv⟩ := isSome_iff_exists.1 hsome
    have hmem : asciiFold k ∈ f.visible.map fun e => asciiFold e.1 := by
      by_contra hnot
      rw [localGet?, ValueMap.get?_eq_none_iff.2 hnot] at hv
      cases hv
    obtain ⟨e, he, hfold⟩ := List.mem_map.1 hmem
    obtain ⟨he, hvis⟩ := mem_filter.1 he
    refine ⟨e.1, mem_filter.2 ⟨List.mem_map_of_mem he, ?_⟩, hfold⟩
    rw [Bool.and_eq_true]
    exact ⟨hvis, (habsent e.1 hfold).2 hnone⟩

lemma localGet?_pull (hentries : entries.Distinct)
    (f : LocalFrame) (frameChanged : Bool) (hlocal : isBridgeKey k = false) :
    (f.pull entries frameChanged).localGet? k =
      match entries.find? (fun e => eqIgnoreAsciiCase e.1 k) with
      | some e => if f.masks e.1 then none else some e.2
      | none => if frameChanged then f.localGet? k else none := by
  rw [pull]
  cases frameChanged with
  | true => exact localGet?_foldl_pullEntry hentries f hlocal
  | false =>
    rw [if_neg Bool.false_ne_true, localGet?_foldl_pullEntry hentries _ hlocal]
    cases hfind : entries.find? (fun e => eqIgnoreAsciiCase e.1 k) with
    | some e =>
      -- what the handle has is not removed
      have hget : entries.get? k = some e.2 := by rw [ValueMap.get?, hfind]; rfl
      have hkeep : asciiFold k ∉ (f.goneKeys entries).map asciiFold := by
        rw [mem_goneKeys_iff, hget]
        simp
      have hfold : asciiFold e.1 = asciiFold k := by
        have hmatch := find?_some hfind
        exact eqIgnoreAsciiCase_iff.1 hmatch
      have hsame : SameFrameAt k { f with locals := f.locals.removeAll (f.goneKeys entries) } f :=
        ⟨rfl, f.locals.getKey?_removeAll hkeep,
          by rw [get?_removeAll, if_neg hkeep], .refl _ _⟩
      exact congrArg (fun b : Bool => if b then none else some e.2) (hsame.masks hfold)
    | none =>
      have hget : entries.get? k = none := by rw [ValueMap.get?, hfind]; rfl
      rw [if_neg Bool.false_ne_true, localGet?_eq]
      dsimp only
      by_cases hgone : asciiFold k ∈ (f.goneKeys entries).map asciiFold
      · rw [get?_removeAll, if_pos hgone, ite_self]
      · -- it did not show before either
        rw [getKey?_removeAll _ hgone, get?_removeAll, if_neg hgone, ← localGet?_eq]
        rw [mem_goneKeys_iff] at hgone
        simpa [hget] using hgone

end LocalFrame

/-! ## What a sync leaves -/

namespace Replicas

lemma handle_push (r : Replicas) (k : String) :
    r.pushEscapedLocal.esc.handle.get? k = r.frame.localGet? k := by
  have hvisible : r.frame.visible.Distinct := r.frame.locals.distinct.filter _
  show ((r.esc.handle.removeAll _).insertAll r.frame.visible).get? k = _
  rw [get?_insertAll hvisible, get?_removeAll, LocalFrame.localGet?]
  cases hview : r.frame.visible.get? k with
  | some v => rfl
  | none =>
    rw [none_or]
    split
    · rfl
    · next hkeep =>
      -- a key that is neither visible nor stale was never in the handle
      by_contra hsome
      refine hkeep ?_
      have hmem : asciiFold k ∈ r.esc.handle.entries.map fun e => asciiFold e.1 := by
        by_contra hnot
        exact hsome (ValueMap.get?_eq_none_iff.2 hnot)
      obtain ⟨e, he, hfold⟩ := List.mem_map.1 hmem
      refine List.mem_map.2 ⟨e.1, mem_filter.2 ⟨List.mem_map_of_mem he, ?_⟩, hfold⟩
      rw [ValueMap.get?_eq_none_iff, ← hfold] at hview
      rw [Bool.not_eq_true', ← Bool.not_eq_true, List.any_eq_true]
      rintro ⟨e', he', hmatch⟩
      exact hview (eqIgnoreAsciiCase_iff.1 hmatch ▸ List.mem_map_of_mem he')

/-- The handle has the key under a spelling whose value the frame would take but not show. -/
def masked (r : Replicas) (k : String) : Bool := (r.esc.handle.getKey? k).any r.frame.masks

variable {r : Replicas} {k : String}

lemma masked_spec (h : r.masked k = true) : (r.esc.handle.get? k).isSome = true ∧
    r.frame.localGet? k = none := by
  obtain ⟨hk, hkey, hmasks⟩ := (Option.any_eq_true _ _).1 h
  refine ⟨?_, r.frame.localGet?_eq_none_of_masks (ValueMap.asciiFold_getKey? hkey) hmasks⟩
  rw [VersionedMap.get?, ← ValueMap.isSome_getKey?]
  exact isSome_iff_exists.2 ⟨hk, hkey⟩

lemma sync_frame (hready : r.esc.pendingResync = false) (hlocal : isBridgeKey k = false) :
    r.syncEscapedLocal.frame.localGet? k =
      if r.handleChanged then
        match r.esc.handle.get? k with
        | some v => if r.masked k then none else some v
        | none => if r.frameChanged then r.frame.localGet? k else none
      else r.frame.localGet? k := by
  have hpull := r.frame.localGet?_pull r.esc.handle.distinct r.frameChanged hlocal
  rw [syncEscapedLocal, hready, if_neg Bool.false_ne_true]
  cases hh : r.handleChanged with
  | false => cases hf : r.frameChanged <;> rfl
  | true =>
    have hframe : (if r.frameChanged then
          pushEscapedLocal { r with frame := r.frame.pull r.esc.handle.entries r.frameChanged }
        else recordVersions
          { r with frame := r.frame.pull r.esc.handle.entries r.frameChanged }).frame =
        r.frame.pull r.esc.handle.entries r.frameChanged := by
      split <;> rfl
    simp only [Bool.not_true, Bool.false_and, Bool.false_eq_true, if_false, if_true]
    rw [hframe, hpull, VersionedMap.get?, ValueMap.get?, masked, getKey?, ValueMap.getKey?]
    cases r.esc.handle.entries.find? fun e => eqIgnoreAsciiCase e.1 k <;> rfl

lemma sync_handle (hready : r.esc.pendingResync = false) (k : String) :
    r.syncEscapedLocal.esc.handle.get? k =
      if r.frameChanged then r.syncEscapedLocal.frame.localGet? k else r.esc.handle.get? k := by
  rw [syncEscapedLocal, hready, if_neg Bool.false_ne_true]
  cases hf : r.frameChanged with
  | false => cases hh : r.handleChanged <;> rfl
  | true =>
    simp only [Bool.not_true, Bool.and_false, Bool.false_eq_true, if_false, if_true]
    rw [handle_push]
    rfl

lemma sync_ready (r : Replicas) : r.syncEscapedLocal.esc.pendingResync = false := by
  rw [syncEscapedLocal]
  cases hp : r.esc.pendingResync with
  | true => rfl
  | false =>
    cases hh : r.handleChanged <;> cases hf : r.frameChanged <;> exact hp

lemma edit_ready (h : r.esc.pendingResync = false) (edits : List Edit) :
    (r.edit edits).esc.pendingResync = false := by
  induction edits generalizing r with
  | nil => exact h
  | cons e edits ih =>
    refine ih ?_
    cases e <;> exact h

def Touched (key? : Edit → Option String) (edits : List Edit) (k : String) : Prop :=
  ∃ e ∈ edits, ∃ k', key? e = some k' ∧ asciiFold k' = asciiFold k

def SameKeys (r : Replicas) : Prop :=
  ∀ k, isBridgeKey k = false → (r.frame.localGet? k).isSome = (r.esc.handle.get? k).isSome

/-- A key changed on exactly one side is, on both, as that side left it. -/
def KeepsUpdates (edits : List Edit) (before after : Replicas) : Prop :=
  ∀ k, isBridgeKey k = false →
    (Touched Edit.frameKey? edits k → ¬Touched Edit.handleKey? edits k →
      after.frame.localGet? k = before.frame.localGet? k ∧
        after.esc.handle.get? k = before.frame.localGet? k) ∧
    (Touched Edit.handleKey? edits k → ¬Touched Edit.frameKey? edits k →
      after.frame.localGet? k = before.esc.handle.get? k ∧
        after.esc.handle.get? k = before.esc.handle.get? k)

/-- What has to be so before a sync. -/
structure Mergeable (edits : List Edit) (r : Replicas) : Prop where
  frameOnly : ∀ k, isBridgeKey k = false → Touched Edit.frameKey? edits k →
    ¬Touched Edit.handleKey? edits k → r.esc.handle.get? k = r.frame.localGet? k ∨
      (r.frameChanged = true ∧
        (r.handleChanged = true → r.esc.handle.get? k = none ∨ r.masked k = true))
  handleOnly : ∀ k, isBridgeKey k = false → Touched Edit.handleKey? edits k →
    ¬Touched Edit.frameKey? edits k → r.esc.handle.get? k = r.frame.localGet? k ∨
      (r.handleChanged = true ∧ r.masked k = false ∧
        (r.frameChanged = true → r.esc.handle.get? k ≠ none))
  /-- A sync that does not push shows what the handle has. -/
  noticed : r.frameChanged = false → ∀ k, isBridgeKey k = false →
    if r.handleChanged then r.masked k = false
    else (r.frame.localGet? k).isSome = (r.esc.handle.get? k).isSome

lemma keepsKey_iff (edits : List Edit) (hready : r.esc.pendingResync = false)
    (hlocal : isBridgeKey k = false) :
    ((r.syncEscapedLocal.frame.localGet? k).isSome = (r.syncEscapedLocal.esc.handle.get? k).isSome ∧
      (Touched Edit.frameKey? edits k → ¬Touched Edit.handleKey? edits k →
        r.syncEscapedLocal.frame.localGet? k = r.frame.localGet? k ∧
          r.syncEscapedLocal.esc.handle.get? k = r.frame.localGet? k) ∧
      (Touched Edit.handleKey? edits k → ¬Touched Edit.frameKey? edits k →
        r.syncEscapedLocal.frame.localGet? k = r.esc.handle.get? k ∧
          r.syncEscapedLocal.esc.handle.get? k = r.esc.handle.get? k)) ↔
    (Touched Edit.frameKey? edits k → ¬Touched Edit.handleKey? edits k →
      r.esc.handle.get? k = r.frame.localGet? k ∨ (r.frameChanged = true ∧
        (r.handleChanged = true → r.esc.handle.get? k = none ∨ r.masked k = true))) ∧
    (Touched Edit.handleKey? edits k → ¬Touched Edit.frameKey? edits k →
      r.esc.handle.get? k = r.frame.localGet? k ∨ (r.handleChanged = true ∧ r.masked k = false ∧
        (r.frameChanged = true → r.esc.handle.get? k ≠ none))) ∧
    (r.frameChanged = false → if r.handleChanged then r.masked k = false
      else (r.frame.localGet? k).isSome = (r.esc.handle.get? k).isSome) := by
  have hmasked : r.masked k = true → (r.esc.handle.get? k).isSome = true ∧
    r.frame.localGet? k = none :=
    masked_spec
  rw [sync_handle hready, sync_frame hready hlocal]
  generalize r.esc.handle.get? k = h at *
  generalize r.frame.localGet? k = f at *
  generalize r.masked k = m at *
  generalize Touched Edit.frameKey? edits k = tf
  generalize Touched Edit.handleKey? edits k = th
  cases r.handleChanged <;> cases r.frameChanged <;> cases h <;> cases m <;> simp at hmasked ⊢
  all_goals grind

/-- After any interval of edits, a sync leaves both replicas with the same locals and keeps every
one-sided update exactly where the interval was mergeable. -/
theorem sync_keepsUpdates_iff (r : Replicas) (edits : List Edit) :
    let before := r.syncEscapedLocal.edit edits
    (SameKeys before.syncEscapedLocal ∧ KeepsUpdates edits before before.syncEscapedLocal) ↔
      Mergeable edits before := by
  intro before
  have hready : before.esc.pendingResync = false := edit_ready r.sync_ready edits
  constructor
  · rintro ⟨hsame, hkeeps⟩
    have hkey := fun k hk => (keepsKey_iff edits hready hk).1 ⟨hsame k hk, hkeeps k hk⟩
    exact ⟨fun k hk => (hkey k hk).1, fun k hk => (hkey k hk).2.1,
      fun hf k hk => (hkey k hk).2.2 hf⟩
  · intro hmergeable
    have hkey := fun k hk => (keepsKey_iff edits hready hk).2
      ⟨hmergeable.frameOnly k hk, hmergeable.handleOnly k hk, fun hf => hmergeable.noticed hf k hk⟩
    exact ⟨fun k hk => (hkey k hk).1, fun k hk => (hkey k hk).2⟩

/-- **A sync settles the two replicas**: a second one, with no edit in between, changes nothing. -/
theorem sync_sync (r : Replicas) : r.syncEscapedLocal.syncEscapedLocal = r.syncEscapedLocal := by
  have hsettled : r.syncEscapedLocal.handleChanged = false ∧
      r.syncEscapedLocal.frameChanged = false := by
    unfold syncEscapedLocal
    split
    · simp [pushEscapedLocal, recordVersions, handleChanged, frameChanged]
    · split
      next hsame => simpa using hsame
      next =>
        -- both ends of the merge read the counters again
        dsimp only
        split <;> simp [pushEscapedLocal, recordVersions, handleChanged, frameChanged]
  rw [syncEscapedLocal, sync_ready, hsettled.1, hsettled.2]
  rfl

end Replicas

def frameX : LocalFrame where
  params := []
  suppliedBits := 0
  supplied := none
  locals := VersionedMap.empty.insert "x" (.int 1)
  declaredLocals := ["x"]
  inherited := ⟨[], [], []⟩
  slotNames := []
  slots := []
  slotBlocked := 0

def writeBoth : List Edit := [.framePut "x" (.int 2), .handlePut "y" (.int 5)]

def beforeSync : Replicas :=
  (escapedLocalHandle frameX VersionedMap.empty).syncEscapedLocal.edit writeBoth

theorem sync_undoes_writeBoth : beforeSync.frame.localGet? "x" = some (.int 2) ∧
      beforeSync.syncEscapedLocal.frame.localGet? "x" = some (.int 1) ∧
      beforeSync.syncEscapedLocal.esc.handle.get? "x" = some (.int 1) ∧
      ¬Replicas.KeepsUpdates writeBoth beforeSync beforeSync.syncEscapedLocal := by
  have hbefore : beforeSync.frame.localGet? "x" = some (.int 2) := rfl
  have hafter : beforeSync.syncEscapedLocal.frame.localGet? "x" = some (.int 1) := rfl
  refine ⟨hbefore, hafter, rfl, fun hkeeps => ?_⟩
  have htouched : Replicas.Touched Edit.frameKey? writeBoth "x" :=
    ⟨.framePut "x" (.int 2), mem_cons_self, "x", rfl, rfl⟩
  have huntouched : ¬Replicas.Touched Edit.handleKey? writeBoth "x" := by
    rintro ⟨e, he, k', hk', hfold⟩
    simp [writeBoth] at he
    rcases he with rfl | rfl
    · cases hk'
    · cases hk'
      exact absurd hfold (by decide)
  have hkept := ((hkeeps "x" (by decide)).1 htouched huntouched).1
  rw [hafter, hbefore] at hkept
  simp at hkept

end RustCfml.Vm
