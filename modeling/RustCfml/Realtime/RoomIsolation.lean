import RustCfml.Realtime.Registry

/-!
# Rooms keep to themselves

`Registry.isolated_of_discreet`: in a run of discreet steps every step is isolated.
-/

namespace RustCfml.Realtime
namespace Registry

open Lowercase StateMachine List

/-- The two records of membership agree, and an id is one connection's. -/
structure Mirrored (σ : Registry) : Prop where
  ids : (σ.conns.map ConnEntry.id).Nodup
  members : ∀ id channel room, id ∈ σ.rooms (channel, room) ↔
    ∃ e ∈ σ.conns, e.id = id ∧ e.channel = channel ∧ room ∈ e.rooms
  once : ∀ k, (σ.rooms k).Nodup

/-- A connection is in its own room, which has a lower-case name, and nobody else is. -/
def Housed (T : CaseTables) (σ : Registry) : Prop :=
  ∀ e ∈ σ.conns, lowerString T e.id = e.id ∧ e.id ∈ e.rooms ∧ ∀ e' ∈ σ.conns, e.id ∈ e'.rooms →
    e'.id = e.id

/-- The history has only what was for a whole channel. -/
def Open (σ : Registry) : Prop := ∀ channel, ∀ f ∈ σ.history channel, ∃ c, f.2 = .channel c none

structure Sound (T : CaseTables) (σ : Registry) : Prop where
  mirrored : σ.Mirrored
  housed : σ.Housed T
  opened : σ.Open

lemma sound_init (T : CaseTables) (nodeId : String) : Sound T (init nodeId) :=
  ⟨⟨nodup_nil, by simp [init], by simp [init]⟩, by simp [Housed, init], by simp [Open, init]⟩

variable {σ : Registry} {T : CaseTables}

variable {id channel : String} {frame : WireEnvelope} {d : Delivery} {e : ConnEntry}
   {address : Address}

lemma mem_of_conn? (h : σ.conn? id = some e) : e ∈ σ.conns ∧ e.id = id :=
  ⟨mem_of_find?_eq_some h, by simpa using find?_some h⟩

lemma conn?_isSome_iff : (σ.conn? id).isSome = true ↔ ∃ e ∈ σ.conns, e.id = id := by
  simp [conn?, find?_isSome]

lemma Mirrored.eq_of_id (h : σ.Mirrored) {e' : ConnEntry} (he : e ∈ σ.conns)
    (he' : e' ∈ σ.conns) (hid : e.id = e'.id) : e = e' := inj_on_of_nodup_map h.ids he he' hid

lemma conns_filter_eq (h : ∀ e ∈ σ.conns, e.id ≠ id) : σ.conns.filter (·.id ≠ id) = σ.conns :=
  filter_eq_self.2 fun e he => by simpa using h e he

lemma Unused.ids_ne (h : σ.Unused id) : ∀ e ∈ σ.conns, e.id ≠ id := fun e he => (h e he).1

lemma Mirrored.register (h : σ.Mirrored) (channel uuid : String)
    (hnew : ∀ e ∈ σ.conns, e.id ≠ σ.newConnId uuid) : (σ.register T channel uuid).Mirrored := by
  refine ⟨?_, fun id c r => ?_, fun k => ?_⟩
  · simp only [Registry.register, conns_filter_eq hnew, map_cons]
    refine nodup_cons.2 ⟨fun hin => ?_, h.ids⟩
    obtain ⟨e, he, hid⟩ := mem_map.1 hin
    exact hnew e he hid
  · have hold := h.members id c r
    simp only [Registry.register, conns_filter_eq hnew, Function.update_apply, Prod.mk.injEq,
      exists_mem_cons_iff]
    split
    next hk =>
      obtain ⟨rfl, rfl⟩ := hk
      rw [mem_insert_iff, hold]
      simp [eq_comm]
    next hk =>
      rw [hold]
      refine ⟨.inr, fun hor => hor.resolve_left ?_⟩
      rintro ⟨-, rfl, hr⟩
      exact hk ⟨rfl, by simpa using hr⟩
  · simp only [Registry.register, Function.update_apply]
    split
    · exact (h.once _).insert
    · exact h.once k

lemma Mirrored.unregister (h : σ.Mirrored) (id : String) : (σ.unregister id).Mirrored := by
  unfold Registry.unregister
  split
  next => exact h
  next entry hentry =>
    obtain ⟨hmem, rfl⟩ := mem_of_conn? hentry
    refine ⟨h.ids.sublist (filter_sublist.map _), fun id c r => ?_, fun k => ?_⟩
    · have hold := h.members id c r
      simp only [mem_filter, ne_eq, decide_not, Bool.not_eq_eq_eq_not, Bool.not_true,
        decide_eq_false_iff_not]
      split
      next hk =>
        rw [mem_filter, hold]
        constructor
        · rintro ⟨⟨e, he, rfl, hc, hr⟩, hne⟩
          exact ⟨e, ⟨he, by simpa using hne⟩, rfl, hc, hr⟩
        · rintro ⟨e, ⟨he, hne⟩, rfl, hc, hr⟩
          exact ⟨⟨e, he, rfl, hc, hr⟩, by simpa using hne⟩
      next hk =>
        rw [hold]
        constructor
        · rintro ⟨e, he, rfl, rfl, hr⟩
          refine ⟨e, ⟨he, fun hid => hk ?_⟩, rfl, rfl, hr⟩
          rw [h.eq_of_id he hmem hid] at hr ⊢
          exact ⟨rfl, hr⟩
        · rintro ⟨e, ⟨he, -⟩, hrest⟩
          exact ⟨e, he, hrest⟩
    · dsimp only
      split
      · exact (h.once k).filter _
      · exact h.once k

lemma map_editRooms_id (id : String) (f : List String → List String) (es : List ConnEntry) :
    (es.map (editRooms id f)).map ConnEntry.id = es.map ConnEntry.id := by
  rw [map_map]
  refine map_congr_left fun e _ => ?_
  rw [Function.comp_apply, editRooms]
  split <;> rfl

lemma Mirrored.edit (h : σ.Mirrored) {entry : ConnEntry} (hmem : entry ∈ σ.conns)
    (room : String) (f g : List String → List String)
    (hf : ∀ r, r ≠ room → (r ∈ f entry.rooms ↔ r ∈ entry.rooms))
    (hg : ∀ ids id, id ≠ entry.id → (id ∈ g ids ↔ id ∈ ids))
    (hfg : ∀ ids, room ∈ f entry.rooms ↔ entry.id ∈ g ids)
    (hnodup : ∀ ids, ids.Nodup → (g ids).Nodup) :
    Mirrored { σ with
      conns := σ.conns.map (editRooms entry.id f)
      rooms := Function.update σ.rooms (entry.channel, room)
          (g (σ.rooms (entry.channel, room))) } := by
  refine ⟨?_, fun id c r => ?_, fun k => ?_⟩
  · simp only [map_editRooms_id]
    exact h.ids
  · -- the members after the change, in terms of the connections before it
    have hafter :
      (∃ e ∈ σ.conns.map (editRooms entry.id f), e.id = id ∧ e.channel = c ∧ r ∈ e.rooms) ↔
        if id = entry.id then entry.channel = c ∧ r ∈ f entry.rooms
        else ∃ e ∈ σ.conns, e.id = id ∧ e.channel = c ∧ r ∈ e.rooms := by
      constructor
      · rintro ⟨e', he', hid, hc, hr⟩
        obtain ⟨e, he, rfl⟩ := mem_map.1 he'
        unfold editRooms at hid hc hr
        split at hid
        next heid =>
          obtain rfl := h.eq_of_id he hmem heid
          simp only [if_true] at hc hr
          rw [if_pos hid.symm]
          exact ⟨hc, hr⟩
        next heid =>
          rw [if_neg heid] at hc hr
          rw [if_neg (fun hx => heid (hid.trans hx))]
          exact ⟨e, he, hid, hc, hr⟩
      · intro hif
        split at hif
        next hid =>
          refine ⟨editRooms entry.id f entry, mem_map_of_mem hmem, ?_⟩
          simpa [editRooms, hid] using hif
        next hid =>
          obtain ⟨e, he, heid, hc, hr⟩ := hif
          refine ⟨editRooms entry.id f e, mem_map_of_mem he, ?_⟩
          have hne : ¬e.id = entry.id := fun hx => hid (heid.symm.trans hx)
          simpa [editRooms, hne] using ⟨heid, hc, hr⟩
    rw [hafter]
    simp only [Function.update_apply, Prod.mk.injEq]
    have hold := h.members id c r
    by_cases hid : id = entry.id
    · subst hid
      rw [if_pos rfl]
      by_cases hk : c = entry.channel ∧ r = room
      · obtain ⟨rfl, rfl⟩ := hk
        rw [if_pos ⟨rfl, rfl⟩, ← hfg]
        simp
      · rw [if_neg hk, hold]
        constructor
        · rintro ⟨e, he, heid, hc, hr⟩
          obtain rfl := h.eq_of_id he hmem heid
          exact ⟨hc, (hf r fun hx => hk ⟨hc.symm, hx⟩).2 hr⟩
        · rintro ⟨hc, hr⟩
          exact ⟨entry, hmem, rfl, hc, (hf r fun hx => hk ⟨hc.symm, hx⟩).1 hr⟩
    · rw [if_neg hid, ← hold]
      split
      next hk =>
        obtain ⟨rfl, rfl⟩ := hk
        exact hg _ id hid
      next => exact Iff.rfl
  · simp only [Function.update_apply]
    split
    · exact hnodup _ (h.once _)
    · exact h.once k

lemma Mirrored.join (h : σ.Mirrored) (id room : String) : (σ.join T id room).Mirrored := by
  unfold Registry.join
  dsimp only
  split
  next => exact h
  next entry hentry =>
    obtain ⟨hmem, rfl⟩ := mem_of_conn? hentry
    exact h.edit hmem _ (List.insert (lowerString T room)) (List.insert entry.id)
      (fun r hr => by simp [mem_insert_iff, hr])
      (fun ids id hid => by simp [mem_insert_iff, hid])
      (fun ids => by simp) fun ids hids => hids.insert

lemma Mirrored.leave (h : σ.Mirrored) (id room : String) : (σ.leave T id room).Mirrored := by
  unfold Registry.leave
  dsimp only
  split
  next => exact h
  next entry hentry =>
    obtain ⟨hmem, rfl⟩ := mem_of_conn? hentry
    exact h.edit hmem _ (filter (· ≠ lowerString T room)) (filter (· ≠ entry.id))
      (fun r hr => by simp [hr]) (fun ids id hid => by simp [hid])
      (fun ids => by simp) fun ids hids => hids.filter _

/-! ## A connection and its own room -/

lemma Housed.register (h : σ.Housed T) (channel uuid : String) (hnew : σ.Unused (σ.newConnId uuid))
    (hlower : lowerString T (σ.newConnId uuid) = σ.newConnId uuid) :
    (σ.register T channel uuid).Housed T := by
  intro e he
  simp only [Registry.register, conns_filter_eq hnew.ids_ne, mem_cons] at he ⊢
  rcases he with rfl | he
  · refine ⟨hlower, mem_singleton_self _, ?_⟩
    rintro e' (rfl | he') hin
    · rfl
    · exact absurd hin (hnew e' he').2
  · obtain ⟨hl, hown, halone⟩ := h e he
    refine ⟨hl, hown, ?_⟩
    rintro e' (rfl | he') hin
    · exact (mem_singleton.1 hin).symm
    · exact halone e' he' hin

lemma Housed.unregister (h : σ.Housed T) (id : String) : (σ.unregister id).Housed T := by
  unfold Registry.unregister
  split
  next => exact h
  next entry hentry =>
    intro e he
    obtain ⟨hl, hown, halone⟩ := h e (mem_of_mem_filter he)
    exact ⟨hl, hown, fun e' he' => halone e' (mem_of_mem_filter he')⟩

lemma Housed.edit (h : σ.Housed T) {f : List String → List String}
    (hown : ∀ rooms, id ∈ rooms → id ∈ f rooms)
    (halone : ∀ e ∈ σ.conns, ∀ rooms, e.id ∈ f rooms → e.id ∈ rooms ∨ e.id = id)
    {conns : List ConnEntry}
    (hconns : conns = σ.conns.map (editRooms id f)) (rooms : String × String → List String) :
    Housed T { σ with conns, rooms } := by
  subst hconns
  intro e' he'
  obtain ⟨e, he, rfl⟩ := mem_map.1 he'
  obtain ⟨hl, hin, hal⟩ := h e he
  have hid : (editRooms id f e).id = e.id := by
    unfold editRooms
    split <;> rfl
  rw [hid]
  refine ⟨hl, ?_, fun e2' he2' hin2 => ?_⟩
  · unfold editRooms
    split
    next heid => exact heid ▸ hown _ (heid ▸ hin)
    next => exact hin
  · obtain ⟨e2, he2, rfl⟩ := mem_map.1 he2'
    unfold editRooms at hin2 ⊢
    split at hin2
    next heid =>
      rw [if_pos heid]
      rcases halone e he _ hin2 with hold | heq
      · exact hal e2 he2 hold
      · exact heid.trans heq.symm
    next hne =>
      rw [if_neg hne]
      exact hal e2 he2 hin2

lemma Housed.join (h : σ.Housed T) (id room : String)
    (hroom : ∀ e ∈ σ.conns, e.id = lowerString T room → e.id = id) :
    (σ.join T id room).Housed T := by
  unfold Registry.join
  dsimp only
  split
  next => exact h
  next entry hentry =>
    refine h.edit (f := insert (lowerString T room)) (fun rooms hin => mem_insert_of_mem hin)
      (fun e he rooms hin => ?_) rfl _
    rcases mem_insert_iff.1 hin with heq | hin
    · exact .inr (hroom e he heq)
    · exact .inl hin

lemma Housed.leave (h : σ.Housed T) (id room : String) (hroom : lowerString T room ≠ id) :
    (σ.leave T id room).Housed T := by
  unfold Registry.leave
  dsimp only
  split
  next => exact h
  next entry hentry =>
    refine h.edit (f := filter (· ≠ lowerString T room))
      (fun rooms hin => mem_filter.2 ⟨hin, by simpa using hroom.symm⟩)
      (fun e he rooms hin => .inl (mem_of_mem_filter hin)) rfl _

lemma Open.recordHistory (h : σ.Open)
    (haddr : (∃ c, address = .channel c none) ∨ σ.historyCap (lowerString T channel) = 0) :
    (σ.recordHistory T channel frame address).Open := by
  unfold Registry.recordHistory
  dsimp only
  split
  next => exact h
  next hcap =>
    intro c f hf
    simp only [Function.update_apply] at hf
    split at hf
    next hc =>
      rcases mem_append.1 (mem_of_mem_drop hf) with hold | hlast
      · exact h _ f hold
      · rw [mem_singleton.1 hlast]
        exact haddr.resolve_right hcap
    next => exact h c f hf

lemma Sound.recordHistory (h : Sound T σ)
    (haddr : (∃ c, address = .channel c none) ∨ σ.historyCap (lowerString T channel) = 0) :
    Sound T (σ.recordHistory T channel frame address) := by
  have hopen : (σ.recordHistory T channel frame address).Open := h.opened.recordHistory haddr
  unfold Registry.recordHistory at hopen ⊢
  dsimp only at hopen ⊢
  split
  next => exact h
  next hcap =>
    rw [if_neg hcap] at hopen
    exact ⟨⟨h.mirrored.ids, h.mirrored.members, h.mirrored.once⟩, h.housed, hopen⟩

lemma Sound.step (h : Sound T σ) (op : Op) (hop : σ.Discreet T op) : Sound T (σ.step T op) := by
  cases op with
  | setHistoryCap channel cap =>
    simp only [Registry.step, perform, Registry.setHistoryCap]
    split
    · exact h
    · exact ⟨⟨h.mirrored.ids, h.mirrored.members, h.mirrored.once⟩, h.housed, h.opened⟩
  | register channel uuid =>
    exact ⟨h.mirrored.register channel uuid hop.1.ids_ne,
      h.housed.register channel uuid hop.1 hop.2, h.opened⟩
  | unregister id =>
    refine ⟨h.mirrored.unregister id, h.housed.unregister id, ?_⟩
    simp only [Registry.step, perform, Registry.unregister]
    split <;> exact h.opened
  | join id room =>
    refine ⟨h.mirrored.join id room, h.housed.join id room hop, ?_⟩
    simp only [Registry.step, perform, Registry.join]
    split <;> exact h.opened
  | leave id room =>
    refine ⟨h.mirrored.leave id room, h.housed.leave id room hop, ?_⟩
    simp only [Registry.step, perform, Registry.leave]
    split <;> exact h.opened
  | broadcast channel frame except =>
    refine h.recordHistory ?_
    cases except with
    | none => exact .inl ⟨channel, rfl⟩
    | some id => exact .inr (hop (by simp))
  | toRoom channel room frame except => exact h.recordHistory (.inr hop)
  | broadcastLocal channel frame except | toRoomLocal channel room frame except
  | emitTo id frame => exact h
  | replaySince channel lastEventId id =>
    simp only [Registry.step, perform, Registry.replaySince]
    split
    · exact h
    · split
      · exact h
      · split
        · exact ⟨⟨h.mirrored.ids, h.mirrored.members, h.mirrored.once⟩, h.housed, h.opened⟩
        · exact h

lemma mem_toRoomLocal (h : Sound T σ) {room : String}
    {except : Option String} (hd : d ∈ σ.toRoomLocal T channel room frame except) :
    d.address = .room channel room except ∧ except ≠ some d.receiver ∧
    σ.Member T d.receiver channel room := by
  obtain ⟨id, hid, rfl⟩ := mem_map.1 hd
  obtain ⟨hin, hcond⟩ := mem_filter.1 hid
  have hne : some id ≠ except := (of_decide_eq_true hcond).1
  exact ⟨rfl, hne.symm, (h.mirrored.members _ _ _).1 hin⟩

lemma mem_broadcastLocal {except : Option String}
    (hd : d ∈ σ.broadcastLocal T channel frame except) :
    d.address = .channel channel except ∧ except ≠ some d.receiver := by
  obtain ⟨e, he, rfl⟩ := mem_map.1 hd
  have hne : some e.id ≠ except := (of_decide_eq_true (mem_filter.1 he).2).2
  exact ⟨rfl, hne.symm⟩

lemma mem_emitTo (hd : d ∈ σ.emitTo id frame address) : d.address = address := by
  unfold Registry.emitTo at hd
  split at hd
  · rw [mem_singleton.1 hd]
  · exact absurd hd (by simp)

lemma mem_replaySince (h : Sound T σ) {lastEventId : String}
    (hd : d ∈ (σ.replaySince T channel lastEventId id).2) :
    d.address = .direct ∨ ∃ c, d.address = .channel c none := by
  have hframes {frames : List (WireEnvelope × Address)}
      (hsub : ∀ f ∈ frames, f ∈ σ.history (lowerString T channel))
      (hin : d ∈ frames.flatMap fun f => σ.emitTo id f.1 f.2) :
          ∃ c, d.address = .channel c none := by
    obtain ⟨f, hf, hd⟩ := mem_flatMap.1 hin
    obtain ⟨c, hc⟩ := h.opened _ f (hsub f hf)
    exact ⟨c, (mem_emitTo hd).trans hc⟩
  unfold Registry.replaySince at hd
  split at hd
  · exact absurd hd (by simp)
  · split at hd
    · exact absurd hd (by simp)
    · dsimp only at hd
      split at hd
      · rcases mem_append.1 hd with hreset | hd
        · exact .inl (mem_emitTo hreset)
        · exact .inr (hframes (fun f hf => mem_of_mem_filter hf) hd)
      · exact .inr (hframes (fun f hf => mem_of_mem_filter hf) hd)

lemma toRoomLocal_own (h : Sound T σ) (he : e ∈ σ.conns)
    (hch : lowerString T channel = e.channel) (frame : WireEnvelope) (except : Option String) :
    (σ.toRoomLocal T channel e.id frame except).map Delivery.receiver =
      if except = some e.id then [] else [e.id] := by
  obtain ⟨hlower, hown, halone⟩ := h.housed e he
  have hmem : e.id ∈ σ.rooms (lowerString T channel, lowerString T e.id) :=
    (h.mirrored.members _ _ _).2 ⟨e, he, rfl, hch.symm, by rwa [hlower]⟩
  have honly : ∀ id ∈ σ.rooms (lowerString T channel, lowerString T e.id), id = e.id := by
    intro id hid
    obtain ⟨e', he', rfl, -, hin⟩ := (h.mirrored.members _ _ _).1 hid
    exact halone e' he' (by rwa [hlower] at hin)
  have hroom : σ.rooms (lowerString T channel, lowerString T e.id) = [e.id] := by
    have hrep := eq_replicate_of_mem honly
    have hnodup := h.mirrored.once (lowerString T channel, lowerString T e.id)
    have hlen := length_pos_of_mem hmem
    rw [hrep, nodup_replicate] at hnodup
    rw [hrep, show (σ.rooms (lowerString T channel, lowerString T e.id)).length = 1 by omega]
    rfl
  have hsome : (σ.conn? e.id).isSome = true := conn?_isSome_iff.2 ⟨e, he, rfl⟩
  simp only [Registry.toRoomLocal, hroom, map_map]
  by_cases hx : except = some e.id
  · simp [hx]
  · have hx' : some e.id ≠ except := fun heq => hx heq.symm
    simp [hx, hx', hsome]

lemma isolated (h : Sound T σ) (op : Op) : σ.Isolated T op := by
  have hplain (hall : ∀ d ∈ σ.deliveries T op, d.address = .direct ∨
    ∃ c, d.address = .channel c none)
      (hop : ∀ c r f x, op ≠ .toRoom c r f x ∧ op ≠ .toRoomLocal c r f x) : σ.Isolated T op := by
    refine ⟨fun d hd c r x hx => ?_, fun d hd => ?_, fun e _ c f x _ hor => ?_⟩
    · rcases hall d hd with hdir | ⟨c', hc'⟩
      · exact absurd (hdir.symm.trans hx) (by simp)
      · exact absurd (hc'.symm.trans hx) (by simp)
    · rcases hall d hd with hdir | ⟨c', hc'⟩
      · simp [hdir, Address.except]
      · simp [hc', Address.except]
    · exact absurd hor (not_or.2 (hop c e.id f x))
  cases op with
  | setHistoryCap channel cap | register channel uuid | unregister id | join id room
  | leave id room =>
    exact hplain (fun d hd => absurd hd (by simp [deliveries, perform])) (by simp)
  | emitTo id frame => exact hplain (fun d hd => .inl (mem_emitTo hd)) (by simp)
  | replaySince channel lastEventId id => exact hplain (fun d hd => mem_replaySince h hd) (by simp)
  | broadcast channel frame except | broadcastLocal channel frame except =>
    refine ⟨fun d hd c r x hx => ?_, fun d hd => ?_, by simp⟩
    · exact absurd ((mem_broadcastLocal hd).1.symm.trans hx) (by simp)
    · rw [(mem_broadcastLocal hd).1]
      exact (mem_broadcastLocal hd).2
  | toRoom channel room frame except | toRoomLocal channel room frame except =>
    refine ⟨fun d hd c r x hx => ?_, fun d hd => ?_, fun e he c f x hch hor => ?_⟩
    · obtain ⟨haddr, -, hmember⟩ := mem_toRoomLocal h hd
      obtain ⟨rfl, rfl, -⟩ := Address.room.inj (haddr.symm.trans hx)
      exact hmember
    · obtain ⟨haddr, hne, -⟩ := mem_toRoomLocal h hd
      rw [haddr]
      exact hne
    · simp [Op.toRoom.injEq, Op.toRoomLocal.injEq] at hor
      obtain ⟨rfl, rfl, rfl, rfl⟩ := hor
      exact toRoomLocal_own h he hch frame except

/-- **Room isolation.** In a run of discreet steps, from a registry without connections, a frame for
a room is delivered to members of the room only, no frame to the connection it excludes, and a frame
for the room named after a connection to exactly that connection. -/
theorem isolated_of_discreet (T : CaseTables) (nodeId : String) {ops : List Op}
    (h : EachStep (Registry.step T) (Registry.Discreet T) (init nodeId) ops) :
    EachStep (Registry.step T) (Registry.Isolated T) (init nodeId) ops :=
  eachStep_of_invariant (fun _ op hs hop => ⟨isolated hs op, hs.step op hop⟩)
    (sound_init T nodeId) h

/-- A new connection's id is not that of another. -/
def NewIds (σ : Registry) : Op → Prop
  | .register _ uuid => ∀ e ∈ σ.conns, e.id ≠ σ.newConnId uuid
  | _ => True

lemma Mirrored.recordHistory (h : σ.Mirrored) {channel : String} {frame : WireEnvelope}
    {address : Address} :
    (σ.recordHistory T channel frame address).Mirrored := by
  unfold Registry.recordHistory
  dsimp only
  split
  · exact h
  · exact ⟨h.ids, h.members, h.once⟩

lemma Mirrored.step (h : σ.Mirrored) (op : Op) (hop : σ.NewIds op) : (σ.step T op).Mirrored := by
  cases op with
  | register channel uuid => exact h.register channel uuid hop
  | unregister id => exact h.unregister id
  | join id room => exact h.join id room
  | leave id room => exact h.leave id room
  | broadcast | toRoom => exact h.recordHistory
  | broadcastLocal | toRoomLocal | emitTo => exact h
  | setHistoryCap | replaySince =>
    simp only [Registry.step, perform, Registry.setHistoryCap, Registry.replaySince]
    repeat' split
    all_goals first | exact h | exact ⟨h.ids, h.members, h.once⟩

/-- **The two records of who is in a room agree along every run**, as long as no id is given out
twice. -/
theorem mirrored_of_newIds (nodeId : String) {ops : List Op}
    (h : EachStep (Registry.step T) Registry.NewIds (.init nodeId) ops) :
    Along (Registry.step T) Mirrored (.init nodeId) ops :=
  along_of_invariant (fun _ h => h) (fun _ op hs hop => hs.step op hop)
    (sound_init T nodeId).mirrored h

end Registry

open StateMachine Lowercase List

def greeting : WireEnvelope := ⟨"msg", "/chat", none, .null, "n1:7", none⟩

/-- `a` joins a room, the room is greeted, and then `b` connects and asks for what it missed. -/
def vipGreeting (history : Nat) : List Registry.Op :=
  [.setHistoryCap "/chat" history, .register "/chat" "a", .join "n1:a" "VIP",
   .toRoom "/chat" "vip" greeting none, .register "/chat" "b", .replaySince "/chat" "n1:0" "n1:b"]

theorem vipGreeting_isolated :
    EachStep (Registry.step .asciiLetters) (Registry.Isolated .asciiLetters) (.init "n1")
      (vipGreeting 0) := by
  refine Registry.isolated_of_discreet _ _ ⟨trivial, ⟨?_, ?_⟩, ?_, ?_, ⟨?_, ?_⟩, trivial, trivial⟩
  all_goals
    try simp only [Registry.Unused, Registry.Discreet]
    decide

/-- A node whose name has a capital: `register` keeps the id as it is, and `to_room` looks for it
lower-cased. -/
def ownRoomCall : List Registry.Op := [.register "/chat" "a", .toRoom "/chat" "N1:a" greeting none]

/-- **What is sent to the room of a connection on such a node reaches nobody.** -/
theorem ownRoom_unreached :
    ¬EachStep (Registry.step .asciiLetters) (Registry.Isolated .asciiLetters)
    (.init "N1") ownRoomCall := by
  rintro ⟨-, h, -⟩
  have hown := h.own ⟨"N1:a", "/chat", ["N1:a"]⟩ mem_cons_self "/chat" greeting none (by decide)
    (.inl rfl)
  revert hown
  decide

theorem mirrored_vipGreeting : EachStep (Registry.step .asciiLetters) Registry.NewIds (.init "n1")
    (vipGreeting 10) ∧
    Along (Registry.step .asciiLetters) Registry.Mirrored (.init "n1") (vipGreeting 10) := by
  have h : EachStep (Registry.step .asciiLetters) Registry.NewIds (.init "n1")
      (vipGreeting 10) := by
    refine ⟨trivial, ?_, trivial, trivial, ?_, trivial, trivial⟩
    all_goals
      simp only [Registry.NewIds]
      decide
  exact ⟨h, Registry.mirrored_of_newIds "n1" h⟩

end RustCfml.Realtime
