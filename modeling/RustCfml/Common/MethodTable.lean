import RustCfml.Common.Value
import RustCfml.Common.VersionedMap

/-!
# A struct and the method table of its class

A component instance keeps its own entries in `map` and shares the methods of its class in one
`method_table`; every accessor merges the two in its own way. `view` is the one map they are meant
to describe: **the own entries, then the table's entries no own entry shadows.**
-/

namespace RustCfml

open List Option ValueMap

structure TabledStruct (α : Type) where
  map : ValueMap α
  methodTable : Option (ValueMap α)
  /-- What `this_alias_value` answers at the moment. -/
  thisAlias : Option α
  map_distinct : map.Distinct
  table_distinct : ∀ t ∈ methodTable, t.Distinct

namespace TabledStruct

variable {α : Type} (s : TabledStruct α)

def isThis (key : String) : Bool := eqIgnoreAsciiCase key "this"

def get (key : String) : Option α :=
  match s.map.get? key with
  | some v => some v
  | none =>
    match s.methodTable.bind fun t => t.get? key with
    | some v => some v
    | none => if isThis key then s.thisAlias else none

def getCi (key : String) : Option α := s.get key

def containsKey (key : String) : Bool :=
  (s.map.get? key).isSome || (s.methodTable.any fun t => (t.get? key).isSome) ||
    (isThis key && s.thisAlias.isSome)

def containsKeyCi (key : String) : Bool := s.containsKey key

def keyCi (key : String) : Option String :=
  match s.map.getKey? key with
  | some orig => some orig
  | none => s.methodTable.bind fun t => if (t.get? key).isSome then some key else t.getKey? key

def unshadowed (t : ValueMap α) : ValueMap α := t.filter fun e => (s.map.get? e.1).isNone

def allKeys : List String :=
  s.map.keys ++
    (s.methodTable.getD []).keys.filter fun k => (s.map.get? k).isNone

def allEntries : List (String × α) := s.map ++ s.unshadowed (s.methodTable.getD [])

/-- One step of the loop of `snapshot_with_methods`. -/
def orInsert (m : ValueMap α) (e : String × α) : ValueMap α :=
  if (m.get? e.1).isSome then m else m.insert e.1 e.2

def snapshotWithMethods : ValueMap α := (s.methodTable.getD []).foldl orInsert s.map

inductive Op (α : Type) where
  | insert (key : String) (value : α)
  | remove (key : String)
  | clear

def apply (s : TabledStruct α) : Op α → TabledStruct α
  | .insert key value =>
    { s with map := s.map.insert key value, map_distinct := s.map_distinct.insert key value }
  | .remove key =>
    { s with map := s.map.shiftRemove key, map_distinct := s.map_distinct.filter _ }
  | .clear => { s with map := [], map_distinct := ValueMap.distinct_nil }

lemma get?_eq_none_of_getKey? {m : ValueMap α} {key : String} (h : m.getKey? key = none) :
    m.get? key = none := by
  have hsome := m.isSome_getKey? key
  rw [h] at hsome
  exact isNone_iff_eq_none.1 (isSome_eq_false_iff.1 hsome.symm)

/-- What the accessors are meant to describe. -/
def view : ValueMap α := s.map ++ s.unshadowed (s.methodTable.getD [])

lemma find?_unshadowed (t : ValueMap α) (key : String) :
    (s.unshadowed t).find? (fun e => eqIgnoreAsciiCase e.1 key) =
      if (s.map.get? key).isNone then t.find? (fun e => eqIgnoreAsciiCase e.1 key) else none := by
  have hname : ∀ e : String × α, ((s.map.get? e.1).isNone && eqIgnoreAsciiCase e.1 key) =
      ((s.map.get? key).isNone && eqIgnoreAsciiCase e.1 key) := by
    intro e
    cases hkey : eqIgnoreAsciiCase e.1 key with
    | false => simp
    | true => rw [get?_congr (eqIgnoreAsciiCase_iff.1 hkey)]
  rw [unshadowed, find?_filter]
  simp only [Bool.decide_and, Bool.decide_eq_true, hname]
  cases (s.map.get? key).isNone <;> simp

variable (key : String)

lemma get?_view : s.view.get? key = (s.map.get? key).or ((s.methodTable.getD []).get? key) := by
  have hrest : (s.unshadowed (s.methodTable.getD [])).get? key =
      if (s.map.get? key).isNone then (s.methodTable.getD []).get? key else none := by
    rw [ValueMap.get?, find?_unshadowed]
    split <;> rfl
  rw [view, get?_append, hrest]
  cases s.map.get? key <;> simp

lemma getKey?_view :
    s.view.getKey? key = (s.map.getKey? key).or ((s.methodTable.getD []).getKey? key) := by
  rw [view, ValueMap.getKey?, find?_append, find?_unshadowed]
  cases hown : s.map.getKey? key with
  | some orig =>
    obtain ⟨e, he, rfl⟩ := map_eq_some_iff.1 hown
    rw [he]
    rfl
  | none =>
    rw [map_eq_none_iff.1 hown, get?_eq_none_of_getKey? hown]
    rfl

lemma tableDistinct : (s.methodTable.getD []).Distinct := by
  cases h : s.methodTable with
  | none => exact nodup_nil
  | some t => exact s.table_distinct t h

lemma view_distinct : s.view.Distinct := by
  have htable : (s.unshadowed (s.methodTable.getD [])).Distinct := s.tableDistinct.filter _
  rw [view, Distinct, map_append, nodup_append]
  refine ⟨s.map_distinct, htable, ?_⟩
  rintro name hown name' htab rfl
  obtain ⟨e, he, rfl⟩ := List.mem_map.1 htab
  have hnone := isNone_iff_eq_none.1 (mem_filter.1 he).2
  exact get?_eq_none_iff.1 hnone hown

lemma foldl_orInsert {t : ValueMap α} (ht : t.Distinct) (m : ValueMap α) :
    t.foldl orInsert m = m ++ t.filter fun e => (m.get? e.1).isNone := by
  induction t generalizing m with
  | nil => simp
  | cons e t ih =>
    obtain ⟨hnew, hrest⟩ := nodup_cons.1 ht
    rw [foldl_cons, ih hrest, orInsert]
    cases hget : m.get? e.1 with
    | some v => simp [hget]
    | none =>
      have hfresh := get?_eq_none_iff.1 hget
      have hlater : ∀ e' ∈ t, (ValueMap.get? (m ++ [(e.1, e.2)]) e'.1).isNone =
          (m.get? e'.1).isNone := by
        intro e' he'
        have hne : asciiFold e.1 ≠ asciiFold e'.1 := fun heq =>
          hnew (List.mem_map.2 ⟨e', he', heq.symm⟩)
        rw [get?_append, get?_cons, if_neg hne, get?_nil, or_none]
      simp only [isSome_none, Bool.false_eq_true, if_false]
      rw [insert_fresh hfresh, filter_congr hlater, filter_cons]
      simp [hget]

lemma get_eq : s.get key = (s.view.get? key).or (if isThis key then s.thisAlias else none) := by
  rw [get, get?_view]
  cases s.map.get? key with
  | some v => rfl
  | none =>
    cases s.methodTable with
    | none => rfl
    | some t => cases h : t.get? key <;> simp [h]

lemma containsKey_eq : s.containsKey key = (s.get key).isSome := by
  rw [containsKey, get_eq, get?_view]
  cases s.map.get? key with
  | some v => simp
  | none =>
    cases s.methodTable with
    | none => cases isThis key <;> simp
    | some t => cases h : t.get? key <;> cases isThis key <;> simp [h]

lemma keyCi_eq_of_stored (h : (s.map.get? key).isSome ∨ ∀ t ∈ s.methodTable, ∀ k ∈ t.getKey? key,
      k = key) :
    s.keyCi key = s.view.getKey? key := by
  rw [keyCi, getKey?_view]
  cases hown : s.map.getKey? key with
  | some orig => rfl
  | none =>
    cases ht : s.methodTable with
    | none => rfl
    | some t =>
      have hstored := h.resolve_left (by simp [get?_eq_none_of_getKey? hown]) t ht
      have hsome := t.isSome_getKey? key
      cases hkey : t.getKey? key with
      | none => simp [hkey, get?_eq_none_of_getKey? hkey]
      | some k =>
        rw [hkey] at hsome hstored
        simp [hkey, ← hsome, hstored k rfl]

lemma keyCi_spec : (s.keyCi key).isSome = (s.view.get? key).isSome ∧
    ∀ k ∈ s.keyCi key, asciiFold k = asciiFold key := by
  rw [keyCi, get?_view]
  have hsome := s.map.isSome_getKey? key
  cases hown : s.map.getKey? key with
  | some orig =>
    rw [hown, isSome_some] at hsome
    refine ⟨by rw [isSome_or, ← hsome]; rfl, ?_⟩
    rintro k ⟨⟩
    exact asciiFold_getKey? hown
  | none =>
    rw [get?_eq_none_of_getKey? hown, none_or]
    cases s.methodTable with
    | none => exact ⟨rfl, by rintro k ⟨⟩⟩
    | some t =>
      have hsome' := t.isSome_getKey? key
      simp only [bind_some, getD_some]
      split
      · next h => exact ⟨h.symm, by rintro k ⟨⟩; rfl⟩
      · next h => exact ⟨hsome', fun k hk => asciiFold_getKey? hk⟩

/-- Own entries shadow the table's, nothing else decides what a name means. -/
structure Consistent : Prop where
  shadows : ∀ key, s.view.get? key = (s.map.get? key).or ((s.methodTable.getD []).get? key)
  once : s.view.Distinct
  allKeys : s.allKeys = s.view.keys
  allEntries : s.allEntries = s.view
  snapshot : s.snapshotWithMethods = s.view
  get : ∀ key, s.get key = (s.view.get? key).or (if isThis key then s.thisAlias else none)
  getCi : ∀ key, s.getCi key = s.get key
  containsKey : ∀ key, s.containsKey key = (s.get key).isSome
  containsKeyCi : ∀ key, s.containsKeyCi key = (s.get key).isSome
  listed : ∀ key, (isThis key = false ∨ s.thisAlias = none) →
    ((∃ k ∈ s.allKeys, asciiFold k = asciiFold key) ↔ s.get key ≠ none)
  keyCi : ∀ key, (s.keyCi key).isSome = (s.view.get? key).isSome ∧
    ∀ k ∈ s.keyCi key, asciiFold k = asciiFold key
  keyCiStored : ∀ key, ((s.map.get? key).isSome ∨
    ∀ t ∈ s.methodTable, ∀ k ∈ t.getKey? key, k = key) → s.keyCi key = s.view.getKey? key

lemma consistent : s.Consistent := by
  have hkeys : s.allKeys = s.view.keys := by
    rw [TabledStruct.allKeys, view, ValueMap.keys, ValueMap.keys, ValueMap.keys, map_append,
      unshadowed, List.filter_map]
    rfl
  refine ⟨s.get?_view, s.view_distinct, hkeys, rfl, foldl_orInsert s.tableDistinct s.map, s.get_eq,
    fun _ => rfl, s.containsKey_eq, s.containsKey_eq, ?_, s.keyCi_spec, s.keyCi_eq_of_stored⟩
  intro key hthis
  have halias : (if isThis key then s.thisAlias else none) =
    none := by rcases hthis with h | h <;> simp [h]
  rw [hkeys, s.get_eq, halias, or_none, ne_eq, get?_eq_none_iff, not_not, ValueMap.keys]
  simp [List.mem_map]

/-- **After any writes and deletes** the accessors describe one map over the table the struct was
made with. -/
theorem consistent_run (ops : List (Op α)) : (ops.foldl apply s).Consistent ∧
    (ops.foldl apply s).methodTable = s.methodTable ∧
    (ops.foldl apply s).thisAlias = s.thisAlias := by
  refine ⟨consistent _, ?_⟩
  induction ops generalizing s with
  | nil => exact ⟨rfl, rfl⟩
  | cons op ops ih =>
    have hstep : (s.apply op).methodTable = s.methodTable ∧
        (s.apply op).thisAlias = s.thisAlias := by
      cases op <;> exact ⟨rfl, rfl⟩
    rw [foldl_cons, (ih (s.apply op)).1, (ih (s.apply op)).2]
    exact hstep

theorem this_found_not_listed : let s : TabledStruct CfmlValue :=
  ⟨[], none, some .null, nodup_nil, by simp⟩
    (s.get "this").isSome = true ∧ s.containsKey "this" = true ∧ s.allKeys = [] := by
  exact ⟨by decide, by decide, rfl⟩

end TabledStruct
end RustCfml
